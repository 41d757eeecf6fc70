/-
# `Lib.Fields` — a line cut at its comment, trimmed, and parted at a separator

The three things that a reader of a line-based format does to a line before it looks at the
words, over any kind of symbol.

    cutComment mark blank fresh xs   xs up to a mark that stands at a fresh place
    trim blank xs                    xs without the blanks at its two ends
    partitionAt sep xs               what stands before and after the first separator

A place is fresh right after a blank; the start of the line is one or not, as `fresh` says.

**Proved here**: what each keeps of its line, how the three commute with an encoding that writes a
symbol as several codes (`Encodes`), and what a wider notion of blank changes: `trim` takes no more
away where neither end is one of the wider blanks (`trim_wider`), and a line that is cut earlier
ends in one (`cutComment_wider`).
-/
import Mathlib.Data.List.DropRight

namespace Lib

variable {α β : Type}

/-! ## Comments -/

/-- A line up to the mark that opens its comment. -/
def cutComment (mark blank : α → Bool) : Bool → List α → List α
  | _, [] => []
  | fresh, x :: xs =>
      if fresh && mark x then [] else x :: cutComment mark blank (blank x) xs

theorem cutComment_cons {mark blank : α → Bool} {fresh : Bool} {x : α} (xs : List α)
    (h : mark x = false) :
    cutComment mark blank fresh (x :: xs) = x :: cutComment mark blank (blank x) xs := by
  simp [cutComment, h]

theorem cutComment_front (mark blank : α → Bool) : ∀ (xs : List α) (fresh : Bool),
    cutComment mark blank fresh xs <+: xs := by
  intro xs
  induction xs with
  | nil => exact fun _ => List.prefix_refl _
  | cons x xs ih =>
      intro fresh
      rw [cutComment]
      split
      · exact List.nil_prefix
      · exact List.cons_prefix_cons.mpr ⟨rfl, ih (blank x)⟩

/-- Behind a symbol that no more is a mark, the freshness of the place does not matter. -/
theorem cutComment_split {mark p q : α → Bool} (hwide : ∀ x, p x = true → q x = true) :
    ∀ (xs : List α) (fresh fresh' : Bool), (fresh' = true → fresh = true) →
      cutComment mark q fresh xs = cutComment mark p fresh' xs ∨
        (∃ ys y, cutComment mark q fresh xs = ys ++ [y] ∧ q y = true ∧ p y = false) ∨
        (fresh = true ∧ fresh' = false ∧ cutComment mark q fresh xs = []) := by
  intro xs
  induction xs with
  | nil => exact fun _ _ _ => .inl rfl
  | cons x xs ih =>
      intro fresh fresh' hfresh
      cases hcut : (fresh && mark x) with
      | true =>
          rw [Bool.and_eq_true] at hcut
          cases fresh' with
          | true => simp [cutComment, hcut]
          | false => exact .inr (.inr ⟨hcut.1, rfl, by simp [cutComment, hcut]⟩)
      | false =>
          have hcut' : (fresh' && mark x) = false := by
            cases fresh' with
            | true => rwa [hfresh rfl] at hcut
            | false => rfl
          simp only [cutComment, hcut, hcut', Bool.false_eq_true, if_false]
          obtain heq | ⟨ys, y, heq, hy⟩ | ⟨hq, hp, heq⟩ := ih (q x) (p x) (hwide x)
          · exact .inl (congrArg (x :: ·) heq)
          · exact .inr (.inl ⟨x :: ys, y, congrArg (x :: ·) heq, hy⟩)
          · exact .inr (.inl ⟨[], x, congrArg (x :: ·) heq, hq, hp⟩)

/-- **A wider notion of blank** cuts at the same mark, or behind a blank of its own. -/
theorem cutComment_wider {mark p q : α → Bool} (hwide : ∀ x, p x = true → q x = true)
    (fresh : Bool) (xs : List α) :
    cutComment mark q fresh xs = cutComment mark p fresh xs ∨
      ∃ ys y, cutComment mark q fresh xs = ys ++ [y] ∧ q y = true ∧ p y = false := by
  obtain heq | hends | ⟨ht, hf, _⟩ := cutComment_split hwide xs fresh fresh id
  · exact .inl heq
  · exact .inr hends
  · rw [ht] at hf
    cases hf

theorem cutComment_congr {mark p q : α → Bool} : ∀ {xs : List α} {fresh : Bool},
    (∀ x ∈ cutComment mark p fresh xs, p x = q x) →
      cutComment mark q fresh xs = cutComment mark p fresh xs := by
  intro xs
  induction xs with
  | nil => exact fun _ => rfl
  | cons x xs ih =>
      intro fresh h
      rw [cutComment] at h ⊢
      rw [cutComment]
      split at h
      next hcut => rw [if_pos hcut, if_pos hcut]
      next hcut =>
        rw [if_neg hcut, if_neg hcut, ← h x List.mem_cons_self,
          ih fun y hy => h y (List.mem_cons_of_mem _ hy)]

/-! ## Blanks at the ends -/

/-- A line without the blanks at its ends, the trailing ones first. -/
def trim (blank : α → Bool) (xs : List α) : List α := (xs.rdropWhile blank).dropWhile blank

variable {p q : α → Bool} {xs : List α}

theorem trim_parts (p : α → Bool) (xs : List α) :
    ∃ as bs, xs = as ++ (trim p xs ++ bs) ∧ (∀ a ∈ as, p a = true) ∧ ∀ b ∈ bs, p b = true := by
  refine ⟨(xs.rdropWhile p).takeWhile p, xs.rtakeWhile p, ?_, ?_, ?_⟩
  · rw [trim, ← List.append_assoc, List.takeWhile_append_dropWhile,
      List.rdropWhile_append_rtakeWhile]
  · exact fun a => List.mem_takeWhile_imp
  · exact fun b => List.mem_rtakeWhile_imp

theorem mem_trim_or {x : α} (h : x ∈ xs) : x ∈ trim p xs ∨ p x = true := by
  obtain ⟨as, bs, hxs, has, hbs⟩ := trim_parts p xs
  rw [hxs, List.mem_append, List.mem_append] at h
  rcases h with h | h | h
  · exact .inr (has x h)
  · exact .inl h
  · exact .inr (hbs x h)

theorem trim_cons {x : α} (xs : List α) (h : p x = false) : ∃ ys, trim p (x :: xs) = x :: ys := by
  induction xs using List.reverseRecOn with
  | nil => exact ⟨[], by simp [trim, List.rdropWhile_singleton, h]⟩
  | append_singleton xs y ih =>
      cases hy : p y with
      | true =>
          obtain ⟨ys, ih⟩ := ih
          refine ⟨ys, ?_⟩
          rw [← ih, trim, ← List.cons_append, List.rdropWhile_concat, if_pos hy, trim]
      | false =>
          refine ⟨xs ++ [y], ?_⟩
          rw [trim, ← List.cons_append, List.rdropWhile_concat, if_neg (by simp [hy])]
          simp [h]

theorem trim_concat {y : α} (ys : List α) (h : p y = false) :
    ∃ zs, trim p (ys ++ [y]) = zs ++ [y] := by
  have hright : (ys ++ [y]).rdropWhile p = ys ++ [y] :=
    List.rdropWhile_concat_neg _ _ _ (by simp [h])
  rw [trim, hright]
  induction ys with
  | nil => exact ⟨[], by simp [h]⟩
  | cons x ys ih =>
      cases hx : p x with
      | true =>
          obtain ⟨zs, hzs⟩ := ih (List.rdropWhile_concat_neg _ _ _ (by simp [h]))
          exact ⟨zs, by rw [List.cons_append, List.dropWhile_cons_of_pos hx, hzs]⟩
      | false => exact ⟨x :: ys, by simp [hx]⟩

def edged (blank : α → Bool) (xs : List α) : Bool := xs.head?.any blank || xs.getLast?.any blank

theorem edged_congr (h : ∀ x ∈ xs, p x = q x) : edged p xs = edged q xs := by
  have hopt : ∀ o : Option α, (∀ x ∈ o, x ∈ xs) → o.any p = o.any q := by
    intro o ho
    cases o with
    | none => rfl
    | some x => exact h x (ho x rfl)
  rw [edged, edged, hopt _ fun _ => List.mem_of_mem_head?, hopt _ fun _ => List.mem_of_mem_getLast?]

theorem edged_of_forall (h : ∀ x ∈ xs, p x = false) : edged p xs = false := by
  rw [edged, Bool.or_eq_false_iff, Option.any_eq_false, Option.any_eq_false]
  refine ⟨fun x hx => ?_, fun x hx => ?_⟩
  · simp [h x (List.mem_of_mem_head? hx)]
  · simp [h x (List.mem_of_mem_getLast? hx)]

theorem trim_eq_self (h : edged p xs = false) : trim p xs = xs := by
  rw [edged, Bool.or_eq_false_iff] at h
  have hlast : xs.rdropWhile p = xs := by
    rw [List.rdropWhile_eq_self_iff]
    intro hne
    have hl := h.2
    rw [List.getLast?_eq_some_getLast hne, Option.any_some] at hl
    simp [hl]
  rw [trim, hlast, List.dropWhile_eq_self_iff]
  intro hpos
  have hh := h.1
  rw [List.head?_eq_some_head (List.ne_nil_of_length_pos hpos), Option.any_some] at hh
  simpa [List.head_eq_getElem] using hh

theorem trim_pad {as ms bs : List α} (has : ∀ a ∈ as, p a = true) (hms : edged p ms = false)
    (hbs : ∀ b ∈ bs, p b = true) : trim p (as ++ (ms ++ bs)) = ms := by
  have htail : ∀ zs : List α, (zs ++ bs).rdropWhile p = zs.rdropWhile p := by
    intro zs
    induction bs using List.reverseRecOn with
    | nil => rw [List.append_nil]
    | append_singleton bs b ih =>
        rw [← List.append_assoc, List.rdropWhile_concat_pos _ _ _ (hbs b (by simp))]
        exact ih fun b' hb' => hbs b' (by simp [hb'])
  rw [trim, ← List.append_assoc, htail]
  induction ms using List.reverseRecOn with
  | nil =>
      have hblank : as.rdropWhile p = [] := List.rdropWhile_eq_nil_iff.mpr has
      rw [List.append_nil, hblank, List.dropWhile_nil]
  | append_singleton ms m =>
      have hm : ¬p m = true := by
        have hl := (Bool.or_eq_false_iff.mp hms).2
        simpa using hl
      rw [← List.append_assoc, List.rdropWhile_concat_neg _ _ _ hm, List.append_assoc,
        List.dropWhile_append_of_pos has]
      have hself := trim_eq_self hms
      rwa [trim, List.rdropWhile_concat_neg _ _ _ hm] at hself

theorem edged_trim (p : α → Bool) (xs : List α) : edged p (trim p xs) = false := by
  rw [edged, Bool.or_eq_false_iff]
  have hhead := List.head?_dropWhile_not p (xs.rdropWhile p)
  refine ⟨?_, ?_⟩
  · rw [trim]
    cases hx : ((xs.rdropWhile p).dropWhile p).head? with
    | none => rfl
    | some x =>
        rw [hx] at hhead
        exact hhead
  · rw [Option.any_eq_false]
    intro x hx
    -- what is left ends as the line without its trailing blanks does
    have hsuffix : (xs.rdropWhile p).dropWhile p <:+ xs.rdropWhile p := List.dropWhile_suffix p
    obtain ⟨zs, hzs⟩ := hsuffix
    have hne : xs.rdropWhile p ≠ [] := by
      intro hnil
      rw [trim, hnil] at hx
      simp at hx
    have hlast := List.rdropWhile_last_not p xs hne
    have hx' : (xs.rdropWhile p).getLast? = some x := by
      rw [← hzs, List.getLast?_append]
      rw [trim] at hx
      simp [hx]
    rw [List.getLast?_eq_some_getLast hne, Option.some.injEq] at hx'
    simpa [hx'] using hlast

/-- **A wider notion of blank** takes no more away where it finds neither end blank. -/
theorem trim_wider (hwide : ∀ x ∈ xs, p x = true → q x = true)
    (hrest : edged q (trim p xs) = false) : trim q xs = trim p xs := by
  obtain ⟨as, bs, hxs, has, hbs⟩ := trim_parts p xs
  have has' : ∀ a ∈ as, q a = true := fun a ha =>
    hwide a (by rw [hxs]; simp [ha]) (has a ha)
  have hbs' : ∀ b ∈ bs, q b = true := fun b hb =>
    hwide b (by rw [hxs]; simp [hb]) (hbs b hb)
  have hpad := trim_pad has' hrest hbs'
  rwa [← hxs] at hpad

/-! ## The first separator -/

/-- What stands before and after the first separator. -/
def partitionAt (sep : α → Bool) : List α → Option (List α × List α)
  | [] => none
  | x :: xs =>
      if sep x then some ([], xs) else (partitionAt sep xs).map fun (a, b) => (x :: a, b)

theorem partitionAt_cons {sep : α → Bool} {x : α} (xs : List α) (h : sep x = false) :
    partitionAt sep (x :: xs) = (partitionAt sep xs).map fun (a, b) => (x :: a, b) := by
  simp [partitionAt, h]

theorem partitionAt_some {sep : α → Bool} : ∀ {xs a b : List α},
    partitionAt sep xs = some (a, b) → ∃ s, sep s = true ∧ xs = a ++ s :: b := by
  intro xs
  induction xs with
  | nil => intro a b h; cases h
  | cons x xs ih =>
      intro a b h
      cases hx : sep x with
      | true =>
          simp only [partitionAt, hx, if_true, Option.some.injEq, Prod.mk.injEq] at h
          obtain ⟨rfl, rfl⟩ := h
          exact ⟨x, hx, rfl⟩
      | false =>
          rw [partitionAt_cons xs hx, Option.map_eq_some_iff] at h
          obtain ⟨⟨a', b'⟩, hrest, heq⟩ := h
          obtain ⟨rfl, rfl⟩ := Prod.mk.inj heq
          obtain ⟨s, hs, hxs⟩ := ih hrest
          exact ⟨s, hs, by rw [hxs, List.cons_append]⟩

/-! ## Symbols written as several codes -/

/-- The codes of a symbol have the property that the symbol has, and a symbol that has it is
written as one code. -/
structure Encodes (f : β → List α) (p' : β → Bool) (p : α → Bool) : Prop where
  codes : ∀ x, ∀ a ∈ f x, p a = p' x
  nonempty : ∀ x, f x ≠ []
  single : ∀ x, p' x = true → ∃ a, f x = [a]

section

variable {f : β → List α} {p' mark' blank' : β → Bool} {mark blank : α → Bool}

theorem dropWhile_flatMap (hcodes : ∀ x, ∀ a ∈ f x, p a = p' x) (hne : ∀ x, f x ≠ [])
    (xs : List β) : (xs.flatMap f).dropWhile p = (xs.dropWhile p').flatMap f := by
  induction xs with
  | nil => rfl
  | cons x xs ih =>
      rw [List.flatMap_cons, List.dropWhile_cons]
      cases hx : p' x with
      | true =>
          rw [List.dropWhile_append_of_pos fun a ha => (hcodes x a ha).trans hx, ih]
          rfl
      | false =>
          obtain ⟨a, as, hfx⟩ := List.exists_cons_of_ne_nil (hne x)
          have ha : p a = false := (hcodes x a (by simp [hfx])).trans hx
          simp [hfx, ha]

theorem Encodes.trim (h : Encodes f p' p) (xs : List β) :
    Lib.trim p (xs.flatMap f) = (Lib.trim p' xs).flatMap f := by
  have hcodes : ∀ x, ∀ a ∈ (f x).reverse, p a = p' x := fun x a ha =>
    h.codes x a (List.mem_reverse.mp ha)
  have hne : ∀ x, (f x).reverse ≠ [] := fun x => by simp [h.nonempty x]
  have hright : (xs.flatMap f).rdropWhile p = (xs.rdropWhile p').flatMap f := by
    rw [List.rdropWhile, List.rdropWhile, List.reverse_flatMap]
    exact (congrArg List.reverse (dropWhile_flatMap hcodes hne xs.reverse)).trans
      (by rw [List.reverse_flatMap]; simp [Function.comp_def])
  rw [Lib.trim, Lib.trim, hright]
  exact dropWhile_flatMap h.codes h.nonempty _

theorem partitionAt_append {as : List α} (h : ∀ a ∈ as, p a = false) (rest : List α) :
    partitionAt p (as ++ rest) = (partitionAt p rest).map fun (u, v) => (as ++ u, v) := by
  induction as with
  | nil => cases hp : partitionAt p rest <;> simp [hp]
  | cons a as ih =>
      rw [List.cons_append, partitionAt_cons _ (h a List.mem_cons_self),
        ih fun a' ha' => h a' (List.mem_cons_of_mem _ ha'), Option.map_map]
      rfl

theorem Encodes.partitionAt (h : Encodes f p' p) (xs : List β) :
    Lib.partitionAt p (xs.flatMap f)
      = (Lib.partitionAt p' xs).map fun (u, v) => (u.flatMap f, v.flatMap f) := by
  induction xs with
  | nil => rfl
  | cons x xs ih =>
      rw [List.flatMap_cons]
      cases hx : p' x with
      | true =>
          obtain ⟨a, hfx⟩ := h.single x hx
          have ha : p a = true := (h.codes x a (by simp [hfx])).trans hx
          simp [hfx, Lib.partitionAt, ha, hx]
      | false =>
          rw [partitionAt_append fun a ha => (h.codes x a ha).trans hx, ih, partitionAt_cons _ hx,
            Option.map_map, Option.map_map]
          rfl

theorem cutComment_append {as : List α} {b : Bool} (hmark : ∀ a ∈ as, mark a = false)
    (hblank : ∀ a ∈ as, blank a = b) (rest : List α) :
    cutComment mark blank b (as ++ rest) = as ++ cutComment mark blank b rest := by
  induction as with
  | nil => rfl
  | cons a as ih =>
      rw [List.cons_append, cutComment_cons _ (hmark a List.mem_cons_self),
        hblank a List.mem_cons_self, ih (fun a' ha' => hmark a' (List.mem_cons_of_mem _ ha'))
          fun a' ha' => hblank a' (List.mem_cons_of_mem _ ha')]
      rfl

theorem Encodes.cutComment (hm : Encodes f mark' mark) (hb : Encodes f blank' blank) :
    ∀ (xs : List β) (fresh : Bool), Lib.cutComment mark blank fresh (xs.flatMap f)
      = (Lib.cutComment mark' blank' fresh xs).flatMap f := by
  intro xs
  induction xs with
  | nil => exact fun _ => rfl
  | cons x xs ih =>
      intro fresh
      obtain ⟨a, as, hfx⟩ := List.exists_cons_of_ne_nil (hm.nonempty x)
      have hma : mark a = mark' x := hm.codes x a (by simp [hfx])
      have hba : blank a = blank' x := hb.codes x a (by simp [hfx])
      rw [List.flatMap_cons, hfx, List.cons_append, Lib.cutComment, Lib.cutComment, hma, hba]
      split
      · rfl
      · rw [List.flatMap_cons, hfx, List.cons_append, ← ih]
        refine congrArg (a :: ·) (cutComment_append (fun a' ha' => ?_) (fun a' ha' => ?_) _)
        · -- a mark would be the only code
          cases hx : mark' x with
          | true =>
              obtain ⟨c, hc⟩ := hm.single x hx
              rw [hfx, List.cons.injEq] at hc
              rw [hc.2] at ha'
              cases ha'
          | false => exact (hm.codes x a' (by simp [hfx, ha'])).trans hx
        · exact hb.codes x a' (by simp [hfx, ha'])

end

/-! ## Parts of a list -/

theorem notMem_of_mem_splitOn [BEq α] [LawfulBEq α] {a : α} : ∀ {xs w : List α},
    w ∈ xs.splitOn a → a ∉ w := by
  intro xs
  induction xs with
  | nil =>
      intro w hw
      rw [List.splitOn_nil, List.mem_singleton] at hw
      simp [hw]
  | cons x xs ih =>
      intro w hw
      rw [List.splitOn_cons_eq_if_modifyHead] at hw
      split at hw
      next =>
        rcases List.mem_cons.mp hw with rfl | hw
        · simp
        · exact ih hw
      next hne =>
        obtain ⟨u, us, hus⟩ := List.exists_cons_of_ne_nil (List.splitOn_ne_nil a xs)
        rw [hus, List.modifyHead_cons] at hw
        rcases List.mem_cons.mp hw with rfl | hw
        · rw [List.mem_cons, not_or]
          refine ⟨fun heq => hne ?_, ih (hus ▸ List.mem_cons_self)⟩
          simp [heq]
        · exact ih (hus ▸ List.mem_cons_of_mem _ hw)

theorem mem_intercalate {sep : List α} : ∀ {ws : List (List α)} {w : List α} {x : α},
    w ∈ ws → x ∈ w → x ∈ sep.intercalate ws := by
  intro ws
  induction ws with
  | nil => intro w x hw; cases hw
  | cons v ws ih =>
      intro w x hw hx
      cases ws with
      | nil =>
          rw [List.intercalate_singleton]
          rwa [List.mem_singleton.mp hw] at hx
      | cons u ws =>
          rw [List.intercalate_cons_cons, List.mem_append, List.mem_append]
          rcases List.mem_cons.mp hw with rfl | hw
          · exact .inl (.inl hx)
          · exact .inr (ih hw hx)

theorem mem_of_mem_splitOn [BEq α] [LawfulBEq α] {a x : α} {xs w : List α}
    (hw : w ∈ xs.splitOn a) (hx : x ∈ w) : x ∈ xs := by
  have hmem : x ∈ [a].intercalate (xs.splitOn a) := mem_intercalate hw hx
  rwa [List.intercalate_splitOn] at hmem

end Lib
