/-
# `Lib.Utf8` — a text and its bytes, as far as ASCII goes

    utf8 text    the bytes that the characters of text are written as, in order
    latin b      the character whose number is the byte b

A character below 128 is written as one byte, its number (`encode_ascii`).  A character from 128
on is written as bytes that are all from 128 on and never 0xFF (`encode_high`).  So a byte below
128 that stands in the bytes of a text is a character of the text (`latin_mem`), and a reader
that knows ASCII only sees every such character where it is.

`decimalText n` is the text of a number, and `decimalLength n` is how long it is.
-/
import Mathlib.Data.List.Basic
import Mathlib.Data.Nat.Digits.Defs

namespace Lib

def utf8 (text : List Char) : List UInt8 := text.flatMap String.utf8EncodeChar

def latin (b : UInt8) : Char := Char.ofNat b.toNat

@[simp] theorem utf8_nil : utf8 [] = [] := rfl

@[simp] theorem utf8_cons (c : Char) (text : List Char) :
    utf8 (c :: text) = String.utf8EncodeChar c ++ utf8 text := rfl

@[simp] theorem utf8_append (s t : List Char) : utf8 (s ++ t) = utf8 s ++ utf8 t :=
  List.flatMap_append ..

theorem latin_toNat (b : UInt8) : (latin b).toNat = b.toNat := by
  have hb := b.toNat_lt
  have hvalid : b.toNat.isValidChar := .inl (by omega)
  rw [latin, Char.ofNat, dif_pos hvalid]
  rfl

theorem latin_injective : Function.Injective latin := by
  intro a b h
  have hnat := congrArg Char.toNat h
  rw [latin_toNat, latin_toNat] at hnat
  exact UInt8.toNat_inj.mp hnat

theorem byte_all {p : UInt8 → Prop} (h : ∀ n < 256, p (UInt8.ofNat n)) (b : UInt8) : p b := by
  have hb := h b.toNat b.toNat_lt
  rwa [UInt8.ofNat_toNat] at hb

theorem list_all {α : Type} {p : α → Prop} [DecidablePred p] {l : List α}
    (h : l.all (fun a => decide (p a)) = true) : ∀ a ∈ l, p a :=
  fun a ha => of_decide_eq_true (List.all_eq_true.mp h a ha)

theorem encode_ascii {c : Char} (h : c.toNat < 128) :
    String.utf8EncodeChar c = [UInt8.ofNat c.toNat] := by
  have hle : c.val.toNat ≤ 0x7f := Nat.le_of_lt_succ h
  exact if_pos hle

theorem latin_ofNat {c : Char} (h : c.toNat < 128) : latin (UInt8.ofNat c.toNat) = c := by
  rw [latin, UInt8.toNat_ofNat_of_lt' (Nat.lt_of_lt_of_le h (by decide)), Char.ofNat_toNat]

/-- No byte of the encoding of a character outside ASCII is an ASCII byte, or 0xFF. -/
theorem encode_high {c : Char} (h : 128 ≤ c.toNat) :
    ∀ b ∈ String.utf8EncodeChar c, 128 ≤ b.toNat ∧ b.toNat < 255 := by
  have hlt : ¬c.val.toNat ≤ 0x7f := by
    intro hle
    have : c.toNat ≤ 0x7f := hle
    omega
  unfold String.utf8EncodeChar
  simp only [hlt, if_false]
  split
  · intro b hb
    simp at hb
    rcases hb with rfl | rfl <;> simp <;> omega
  · split
    · intro b hb
      simp at hb
      rcases hb with rfl | rfl | rfl <;> simp <;> omega
    · intro b hb
      simp at hb
      rcases hb with rfl | rfl | rfl | rfl <;> simp <;> omega

theorem utf8_latin : ∀ {bs : List UInt8}, (∀ b ∈ bs, b.toNat < 128) → utf8 (bs.map latin) = bs := by
  intro bs
  induction bs with
  | nil => intro _; rfl
  | cons b bs ih =>
      intro h
      have hb : (latin b).toNat < 128 := by
        rw [latin_toNat]
        exact h b List.mem_cons_self
      rw [List.map_cons, utf8_cons, encode_ascii hb, latin_toNat, UInt8.ofNat_toNat,
        ih fun b' hb' => h b' (List.mem_cons_of_mem _ hb')]
      rfl

theorem latin_mem {b : UInt8} (hb : b.toNat < 128) : ∀ {text : List Char},
    b ∈ utf8 text → latin b ∈ text := by
  intro text
  induction text with
  | nil => intro h; cases h
  | cons c text ih =>
      intro h
      rw [utf8_cons, List.mem_append] at h
      rcases h with h | h
      · rcases Nat.lt_or_ge c.toNat 128 with hc | hc
        · rw [encode_ascii hc, List.mem_singleton] at h
          rw [h, latin_ofNat hc]
          exact List.mem_cons_self
        · have hhigh := encode_high hc b h
          omega
      · exact List.mem_cons_of_mem _ (ih h)

theorem utf8_eq_nil {text : List Char} : utf8 text = [] ↔ text = [] := by
  cases text with
  | nil => exact iff_of_true rfl rfl
  | cons c text =>
      refine iff_of_false (fun h => ?_) (List.cons_ne_nil c text)
      rw [utf8_cons, List.append_eq_nil_iff] at h
      exact String.utf8EncodeChar_ne_nil h.1

theorem map_latin_utf8 : ∀ {text : List Char}, (∀ c ∈ text, c.toNat < 128) →
    (utf8 text).map latin = text := by
  intro text
  induction text with
  | nil => intro _; rfl
  | cons c text ih =>
      intro h
      have hc := h c List.mem_cons_self
      rw [utf8_cons, encode_ascii hc, List.singleton_append, List.map_cons, latin_ofNat hc,
        ih fun c' hc' => h c' (List.mem_cons_of_mem _ hc')]

theorem ascii_of_utf8 {text : List Char} (h : ∀ b ∈ utf8 text, b.toNat < 128) :
    ∀ c ∈ text, c.toNat < 128 := by
  intro c hc
  by_contra hge
  obtain ⟨b, bs, hb⟩ := List.exists_cons_of_ne_nil (String.utf8EncodeChar_ne_nil (c := c))
  have hmem : b ∈ String.utf8EncodeChar c := by rw [hb]; exact List.mem_cons_self
  have hhigh := (encode_high (Nat.le_of_not_lt hge) b hmem).1
  have hlow := h b (List.mem_flatMap.mpr ⟨c, hc, hmem⟩)
  omega

theorem utf8_inj {s t : List Char} (h : ∀ b ∈ utf8 t, b.toNat < 128) : utf8 s = utf8 t ↔ s = t := by
  refine ⟨fun hst => ?_, congrArg utf8⟩
  rw [← map_latin_utf8 (ascii_of_utf8 h), ← hst,
    map_latin_utf8 (ascii_of_utf8 fun b hb => h b (hst ▸ hb))]

theorem utf8_lt {b : UInt8} : ∀ {text : List Char}, b ∈ utf8 text → b.toNat < 255 := by
  intro text
  induction text with
  | nil => intro h; cases h
  | cons c text ih =>
      intro h
      rw [utf8_cons, List.mem_append] at h
      rcases h with h | h
      · rcases Nat.lt_or_ge c.toNat 128 with hc | hc
        · rw [encode_ascii hc, List.mem_singleton] at h
          rw [h, UInt8.toNat_ofNat_of_lt' (Nat.lt_of_lt_of_le hc (by decide))]
          omega
        · exact (encode_high hc b h).2
      · exact ih h

/-! ## Numbers in decimal -/

/-- The ASCII text of a number, without leading zeros, and "0" for zero. -/
def decimalText (n : Nat) : List UInt8 := (Nat.toDigits 10 n).map fun c => UInt8.ofNat c.toNat

def decimalLength (n : Nat) : Nat := (Nat.toDigits 10 n).length

theorem decimalText_length (n : Nat) : (decimalText n).length = decimalLength n :=
  List.length_map ..

theorem decimalText_digit {n : Nat} (h : n < 10) : decimalText n = [UInt8.ofNat (0x30 + n)] := by
  have hall : ∀ d < 10, UInt8.ofNat (Nat.digitChar d).toNat = UInt8.ofNat (0x30 + d) := by decide
  rw [decimalText, Nat.toDigits_of_lt_base h, List.map_singleton, hall n h]

theorem decimalText_step {n : Nat} (h : 10 ≤ n) :
    decimalText n = decimalText (n / 10) ++ [UInt8.ofNat (0x30 + n % 10)] := by
  have hlast := decimalText_digit (Nat.mod_lt n (by decide : 0 < 10))
  rw [← hlast, decimalText, Nat.toDigits_of_base_le (by decide) h, List.map_append,
    decimalText, decimalText, Nat.toDigits_of_lt_base (Nat.mod_lt n (by decide))]

theorem decimalLength_step {n : Nat} (h : 10 ≤ n) : decimalLength n = decimalLength (n / 10) + 1 := by
  rw [← decimalText_length, decimalText_step h, List.length_append, decimalText_length]
  rfl

theorem decimalLength_digit {n : Nat} (h : n < 10) : decimalLength n = 1 := by
  rw [← decimalText_length, decimalText_digit h]
  rfl

theorem decimalLength_le_iff {n k : Nat} (hk : 0 < k) : decimalLength n ≤ k ↔ n < 10 ^ k :=
  Nat.length_toDigits_le_iff (by decide) hk

end Lib
