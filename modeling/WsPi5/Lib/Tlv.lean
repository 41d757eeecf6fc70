/-
# `Lib.Tlv` — lists of kind, length and data

An option list is a sequence of items, each a kind byte, a length byte and as many data bytes as
the length says; two kinds have no length, one that pads and one that ends the list.  In some
formats the length counts the kind and the length byte too, in others the data alone.

    format   ends at   pads with   the length counts
    TCP      0         1           kind, length and data
    DHCP     255       0           data

`walk` reads items until the list ends or an item is malformed: its length byte is missing or too
small, or its data do not fit.  The items that it has read by then are one result, and whether the
list is well formed is the other.

**Proved here**: a rule for each shape of the list (`walk_*`), and that items which were encoded are
read back (`items_encode`).  `lastOf` is the data of the last item of a kind, for readers where a
later item overrides an earlier one.
-/
import Mathlib.Data.Nat.Notation
import Mathlib.Data.List.Basic

namespace Lib

/-- What a format of option lists fixes. -/
structure TlvFormat where
  /-- ends the list -/
  eol : UInt8
  /-- one byte of padding -/
  pad : UInt8
  /-- what the length counts besides the data -/
  extra : Nat

abbrev TlvItem := UInt8 × List UInt8

namespace TlvFormat

/-- At most `n` items: those read, and whether the list is well formed. -/
def walk (fmt : TlvFormat) : Nat → List UInt8 → List TlvItem × Bool
  | _, [] => ([], true)
  | 0, _ :: _ => ([], false)
  | n + 1, kind :: rest =>
      if kind = fmt.eol then ([], true)
      else if kind = fmt.pad then fmt.walk n rest
      else
        match rest with
        | [] => ([], false)
        | len :: body =>
            if len.toNat < fmt.extra ∨ body.length + fmt.extra < len.toNat then ([], false)
            else
              let r := fmt.walk n (body.drop (len.toNat - fmt.extra))
              ((kind, body.take (len.toNat - fmt.extra)) :: r.1, r.2)

/-- The items up to the end of the list or a malformed one. -/
def items (fmt : TlvFormat) (bs : List UInt8) : List TlvItem := (fmt.walk bs.length bs).1

def wellFormed (fmt : TlvFormat) (bs : List UInt8) : Bool := (fmt.walk bs.length bs).2

variable {fmt : TlvFormat} {n : Nat} {kind len : UInt8} {rest body : List UInt8}

theorem walk_end : fmt.walk (n + 1) (fmt.eol :: rest) = ([], true) :=
  if_pos rfl

theorem walk_pad (heol : kind ≠ fmt.eol) (hpad : kind = fmt.pad) :
    fmt.walk (n + 1) (kind :: rest) = fmt.walk n rest :=
  (if_neg heol).trans (if_pos hpad)

theorem walk_noLength (heol : kind ≠ fmt.eol) (hpad : kind ≠ fmt.pad) :
    fmt.walk (n + 1) [kind] = ([], false) := by
  rw [walk, if_neg heol, if_neg hpad]

theorem walk_malformed (heol : kind ≠ fmt.eol) (hpad : kind ≠ fmt.pad)
    (h : len.toNat < fmt.extra ∨ body.length + fmt.extra < len.toNat) :
    fmt.walk (n + 1) (kind :: len :: body) = ([], false) := by
  rw [walk, if_neg heol, if_neg hpad]
  exact if_pos h

theorem walk_item (heol : kind ≠ fmt.eol) (hpad : kind ≠ fmt.pad)
    (h : ¬ (len.toNat < fmt.extra ∨ body.length + fmt.extra < len.toNat)) :
    fmt.walk (n + 1) (kind :: len :: body) =
      ((kind, body.take (len.toNat - fmt.extra)) ::
        (fmt.walk n (body.drop (len.toNat - fmt.extra))).1,
        (fmt.walk n (body.drop (len.toNat - fmt.extra))).2) := by
  rw [walk, if_neg heol, if_neg hpad]
  exact if_neg h

/-! ## Written and read back -/

def encode (fmt : TlvFormat) (items : List TlvItem) : List UInt8 :=
  items.flatMap fun it => it.1 :: UInt8.ofNat (it.2.length + fmt.extra) :: it.2

/-- The kind is neither of the two without a length, and the length fits its byte. -/
def Encodable (fmt : TlvFormat) (it : TlvItem) : Prop :=
  it.1 ≠ fmt.eol ∧ it.1 ≠ fmt.pad ∧ it.2.length + fmt.extra < 256

theorem walk_encode {items : List TlvItem} (h : ∀ it ∈ items, fmt.Encodable it)
    (hn : items.length < n) (after : List UInt8) :
    fmt.walk n (fmt.encode items ++ fmt.eol :: after) = (items, true) := by
  induction items generalizing n with
  | nil =>
      obtain ⟨m, rfl⟩ : ∃ m, n = m + 1 := ⟨n - 1, by simpa using (Nat.succ_pred_eq_of_pos hn).symm⟩
      exact walk_end
  | cons it items ih =>
      obtain ⟨heol, hpad, hfits⟩ := h it (List.mem_cons_self ..)
      obtain ⟨m, rfl⟩ : ∃ m, n = m + 1 := ⟨n - 1, by omega⟩
      have hlen : (UInt8.ofNat (it.2.length + fmt.extra)).toNat = it.2.length + fmt.extra := by
        rw [UInt8.toNat_ofNat', Nat.mod_eq_of_lt hfits]
      have hrest : fmt.encode (it :: items) ++ fmt.eol :: after
          = it.1 :: UInt8.ofNat (it.2.length + fmt.extra) ::
              (it.2 ++ (fmt.encode items ++ fmt.eol :: after)) := by
        simp only [encode, List.flatMap_cons, List.cons_append, List.append_assoc]
      rw [hrest, walk_item heol hpad, hlen, Nat.add_sub_cancel, List.take_left, List.drop_left,
        ih (fun it hit => h it (List.mem_cons_of_mem _ hit)) (by simpa using hn)]
      rw [hlen, List.length_append]
      omega

/-- **What was encoded is read back**, whatever stands behind its end. -/
theorem items_encode {items : List TlvItem} (h : ∀ it ∈ items, fmt.Encodable it)
    (after : List UInt8) : fmt.items (fmt.encode items ++ fmt.eol :: after) = items ∧
      fmt.wellFormed (fmt.encode items ++ fmt.eol :: after) = true := by
  have hlong : items.length < (fmt.encode items ++ fmt.eol :: after).length := by
    have hle : items.length ≤ (fmt.encode items).length := by
      clear h
      induction items with
      | nil => exact Nat.le_refl _
      | cons it items ih =>
          rw [encode, List.flatMap_cons, List.length_append, List.length_cons, List.length_cons,
            List.length_cons]
          rw [encode] at ih
          omega
    rw [List.length_append, List.length_cons]
    omega
  rw [TlvFormat.items, wellFormed, walk_encode h hlong]
  exact ⟨rfl, rfl⟩

end TlvFormat

/-! ## The last item of a kind -/

def lastOf (kind : UInt8) (items : List TlvItem) : Option (List UInt8) :=
  (items.reverse.find? fun it => it.1 = kind).map Prod.snd

theorem lastOf_snoc (kind : UInt8) (items : List TlvItem) (it : TlvItem) :
    lastOf kind (items ++ [it]) = if it.1 = kind then some it.2 else lastOf kind items := by
  rw [lastOf, List.reverse_append, List.reverse_singleton, List.singleton_append, List.find?_cons]
  by_cases h : it.1 = kind
  · simp [h]
  · simp [h, lastOf]

theorem lastOf_mem {kind : UInt8} {items : List TlvItem} {data : List UInt8}
    (h : lastOf kind items = some data) : (kind, data) ∈ items := by
  obtain ⟨⟨k, d⟩, hfind, rfl⟩ := Option.map_eq_some_iff.mp h
  have hp := List.find?_some hfind
  have hk : k = kind := of_decide_eq_true hp
  subst hk
  exact List.mem_reverse.mp (List.mem_of_find?_eq_some hfind)

end Lib
