/-
# `Lib.Html` — text between tags

In the text of an element three characters are not written as themselves:

    <   &lt;        >   &gt;        &   &amp;

**Proved here** (`escaped_htmlEscape`): what is written for a text, whatever the text, has no `<` and
no `>`, and each `&` in it begins one of the three names.
-/
import Mathlib.Data.List.Basic

namespace Lib

abbrev ltByte : UInt8 := 0x3C
abbrev gtByte : UInt8 := 0x3E
abbrev ampByte : UInt8 := 0x26

def htmlByte (b : UInt8) : List UInt8 :=
  if b = ltByte then [ampByte, 0x6C, 0x74, 0x3B]
  else if b = gtByte then [ampByte, 0x67, 0x74, 0x3B]
  else if b = ampByte then [ampByte, 0x61, 0x6D, 0x70, 0x3B]
  else [b]

def htmlEscape (text : List UInt8) : List UInt8 := text.flatMap htmlByte

/-- What stands behind the `&`, up to the semicolon. -/
def entityNames : List (List UInt8) :=
  [[0x6C, 0x74, 0x3B], [0x67, 0x74, 0x3B], [0x61, 0x6D, 0x70, 0x3B]]

/-- No tag begins or ends in the text, and each `&` begins an entity. -/
structure Escaped (text : List UInt8) : Prop where
  lt : ltByte ∉ text
  gt : gtByte ∉ text
  amp : ∀ front behind, text = front ++ ampByte :: behind → ∃ name ∈ entityNames, name <+: behind

theorem htmlByte_plain {b : UInt8} (h : b ≠ ltByte ∧ b ≠ gtByte ∧ b ≠ ampByte) :
    htmlByte b = [b] := by
  rw [htmlByte, if_neg h.1, if_neg h.2.1, if_neg h.2.2]

theorem escaped_nil : Escaped [] where
  lt := List.not_mem_nil
  gt := List.not_mem_nil
  amp := fun front behind h => by simp at h

theorem escaped_entity {name text : List UInt8} (hname : name ∈ entityNames) (h : Escaped text) :
    Escaped (ampByte :: name ++ text) := by
  have hclean : ∀ name ∈ entityNames, ltByte ∉ ampByte :: name ∧ gtByte ∉ ampByte :: name ∧
      ampByte ∉ name := by decide
  obtain ⟨hlt, hgt, hamp⟩ := hclean name hname
  refine ⟨?_, ?_, fun front behind heq => ?_⟩
  · rw [List.mem_append]
    exact fun hmem => hmem.elim hlt h.lt
  · rw [List.mem_append]
    exact fun hmem => hmem.elim hgt h.gt
  · cases front with
    | nil =>
        have hbehind := (List.cons.inj heq).2
        exact ⟨name, hname, text, hbehind⟩
    | cons f front =>
        have htail : name ++ text = front ++ ampByte :: behind := (List.cons.inj heq).2
        -- the name has no `&`, so this one is in the text
        rcases List.append_eq_append_iff.mp htail with ⟨mid, hfront, htext⟩ | ⟨mid, hmid, hcut⟩
        · exact h.amp mid behind htext
        · cases mid with
          | nil => exact h.amp [] behind hcut.symm
          | cons m mid =>
              have hm : ampByte = m := (List.cons.inj hcut).1
              exact absurd (hmid ▸ List.mem_append_right front (hm ▸ List.mem_cons_self)) hamp

theorem escaped_plain {b : UInt8} {text : List UInt8} (hb : b ≠ ltByte ∧ b ≠ gtByte ∧ b ≠ ampByte)
    (h : Escaped text) : Escaped (b :: text) where
  lt := fun hmem => (List.mem_cons.mp hmem).elim (fun heq => hb.1 heq.symm) h.lt
  gt := fun hmem => (List.mem_cons.mp hmem).elim (fun heq => hb.2.1 heq.symm) h.gt
  amp := fun front behind heq => by
    cases front with
    | nil => exact absurd (List.cons.inj heq).1 hb.2.2
    | cons f front => exact h.amp front behind (List.cons.inj heq).2

/-- **Escaped text** stays inside its element. -/
theorem escaped_htmlEscape (text : List UInt8) : Escaped (htmlEscape text) := by
  induction text with
  | nil => exact escaped_nil
  | cons b text ih =>
      rw [htmlEscape, List.flatMap_cons]
      by_cases hlt : b = ltByte
      · rw [hlt]
        exact escaped_entity (by decide : [0x6C, 0x74, 0x3B] ∈ entityNames) ih
      · by_cases hgt : b = gtByte
        · rw [hgt]
          exact escaped_entity (by decide : [0x67, 0x74, 0x3B] ∈ entityNames) ih
        · by_cases hamp : b = ampByte
          · rw [hamp]
            exact escaped_entity (by decide : [0x61, 0x6D, 0x70, 0x3B] ∈ entityNames) ih
          · rw [htmlByte_plain ⟨hlt, hgt, hamp⟩]
            exact escaped_plain ⟨hlt, hgt, hamp⟩ ih

end Lib
