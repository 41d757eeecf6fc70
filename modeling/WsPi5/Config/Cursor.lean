/-
# `WsPi5.Config.Cursor` — the boot parser's cursor, in memory

`config_parse` gets an address and a length, and moves x19 from there to x20, the limit.  Here its
loops are those over addresses, in a memory that need not have any cell outside the buffer.

    the loops of a line      `scanFor`, `scanMark`, `trimAt` over [x19, x20)
    `_lookup_key`, `_validate_*`, `_store_hostname`    read within the range they get

The last ones are those of `WsPi5.Config.Parser` on the bytes of the range, which are loaded in
front of the call.

main.S hands over 4 KiB, so that behind the file stands what was in memory before.  A NUL or an
0xFF is the end of the file to both scanners: `_check_magic` fails on it or leaves the cursor on
it, and `_parse_line` moves the cursor to the limit.

**Proved here** (`config_parse_marker`).  On a memory that has only the bytes of the buffer the
parse comes to an end, and the result is that of `configParse` on these bytes; and two buffers that
agree up to and including their first NUL or 0xFF give the same result and the same stores.
-/
import WsPi5.Lib.Region
import WsPi5.Config.Parser

namespace WsPi5.ConfigParser

open Lib

/-! ## The loops -/

section
variable (mem : Nat → Option Byte) (x20 : Nat)

/-- `_check_magic`, at most `n` lines: the cursor, or none for E_MAGIC. -/
def checkMagicAt : Nat → Nat → Option (Option Nat)
  | 0, _ => none
  | n + 1, x19 =>
      if x20 ≤ x19 then some none
      else do
        let x10 ← scanFor mem endsMagic x19 x20
        let x12 ← scanMark mem isWs isHash x19 x10 (x19 + 1)
        let (x9, x12) ← trimAt mem isWs x19 x12
        if x12 ≤ x9 then
          if x20 ≤ x10 then some none
          else do
            let w11 ← mem x10
            if w11 = 0 ∨ 0x7E < w11 then some none else checkMagicAt n (x10 + 1)
        else if x12 - x9 ≠ magic.length then some none
        else do
          let line ← loadRange mem x9 x12
          if line ≠ magic then some none
          else if x20 ≤ x10 then some (some x10)
          else do
            let w11 ← mem x10
            some (some (if w11 = 0x0A then x10 + 1 else x10))

/-- `.Lpl_advance`, with x23 where the scan stopped. -/
def advanceAt (x23 : Nat) : Option Nat :=
  if x20 ≤ x23 then some x23
  else do
    let w11 ← mem x23
    some (if w11 = 0x0A then x23 + 1 else x20)

/-- `.Lpl_find_eq` to the stores, in the range [x9, x12): what is stored. -/
def readEntryAt (seen : W) (x9 x12 : Nat) : Option (Except ConfErr (ConfKey × Value)) := do
  let x13 ← scanFor mem isEq x9 x12
  if x12 ≤ x13 then some (.error .line)
  else do
    let (x14, x15) ← trimAt mem isBlank x9 x13
    let needle ← loadRange mem x14 x15
    match lookupKey needle with
    | none => some (.error .key)
    | some key =>
        if wasSeen seen key then some (.error .dup)
        else do
          let (x24, x25) ← trimAt mem isBlank (x13 + 1) x12
          let value ← loadRange mem x24 x25
          some ((validate key value).map fun v => (key, v))

/-- `_parse_line`. -/
def parseLineAt (p : PState) (x19 : Nat) : Option (Except ConfErr (PState × Nat)) := do
  let x23 ← scanFor mem endsLine x19 x20
  let x12 ← scanMark mem isWs isHash x19 x23 x19
  let (x9, x12) ← trimAt mem isWs x19 x12
  if x12 ≤ x9 then (advanceAt mem x20 x23).map fun x19 => .ok (p, x19)
  else do
    match ← readEntryAt mem p.seen x9 x12 with
    | .error e => some (.error e)
    | .ok entry => (advanceAt mem x20 x23).map fun x19 => .ok (p.enter (some entry), x19)

/-- `.Lcp_loop`, at most `n` lines. -/
def loopAt : Nat → PState → Nat → Option (Option ConfErr × NetLabels)
  | 0, _, _ => none
  | n + 1, p, x19 =>
      if x20 ≤ x19 then some (finish p)
      else do
        match ← parseLineAt mem x20 p x19 with
        | .error e => some (checkSoftEof p e)
        | .ok (p', x19') => loopAt n p' x19'

end

/-- `config_parse` of `len` bytes at `start`: `none` where a cell is read that is not there, or the
turns, one more than there are bytes, do not suffice. -/
def configParseAt (mem : Nat → Option Byte) (net : NetLabels) (start len : Nat) :
    Option (Option ConfErr × NetLabels) := do
  let net := { net with dhcp := 0 }
  match ← checkMagicAt mem (start + len) (len + 1) start with
  | none => some (some .magic, net)
  | some x19 => loopAt mem (start + len) (len + 1) ⟨0, net⟩ x19

/-! ## A line -/

section
variable {mem : Nat → Option Byte} {p : Nat} {bs : List Byte}

theorem range_empty {α : Type} (q : Nat) (xs : List α) : q + xs.length ≤ q ↔ xs = [] := by
  rw [← List.length_eq_zero_iff]
  omega

theorem partitionAt_takeWhile {α : Type} (sep : α → Bool) (xs : List α) : partitionAt sep xs =
    match xs.dropWhile fun b => !sep b with
    | [] => none
    | _ :: after => some (xs.takeWhile fun b => !sep b, after) := by
  induction xs with
  | nil => rfl
  | cons x xs ih =>
      cases hx : sep x with
      | true => simp [partitionAt, hx]
      | false =>
          rw [partitionAt_cons xs hx, ih]
          simp only [List.dropWhile_cons, List.takeWhile_cons, hx, Bool.not_false, if_true]
          cases xs.dropWhile fun b => !sep b <;> rfl

theorem advanceAt_eq {line rest : List Byte} (h : Stands mem p (line ++ rest)) :
    advanceAt mem (p + (line ++ rest).length) (p + line.length)
      = some (p + (line ++ rest).length - (advance rest).length) := by
  rw [advanceAt, List.length_append]
  cases rest with
  | nil => simp [advance]
  | cons b rest =>
      rw [if_neg (by rw [List.length_cons]; omega), h.right.head]
      show some _ = some _
      rw [advance]
      split
      · rw [List.length_cons]
        congr 1
        omega
      · rfl

theorem readEntryAt_eq (seen : W) (h : Stands mem p bs) :
    readEntryAt mem seen p (p + bs.length) = some (
      match partitionAt isEq bs with
      | none => .error .line
      | some (key, value) =>
          match lookupKey (trim isBlank key) with
          | none => .error .key
          | some k =>
              if wasSeen seen k then .error .dup
              else (validate k (trim isBlank value)).map fun v => (k, v)) := by
  have hparts := List.takeWhile_append_dropWhile (p := fun b => !isEq b) (l := bs)
  rw [readEntryAt, scanFor_eq h, partitionAt_takeWhile]
  cases hd : bs.dropWhile fun b => !isEq b with
  | nil =>
      rw [hd, List.append_nil] at hparts
      rw [hparts]
      simp
  | cons e after =>
      rw [hd] at hparts
      generalize (bs.takeWhile fun b => !isEq b) = key at hparts ⊢
      subst hparts
      have hlim : ¬ p + (key ++ e :: after).length ≤ p + key.length := by simp
      obtain ⟨k', hk, hks⟩ := @trimAt_eq _ mem p key isBlank h.left
      obtain ⟨v', hv, hvs⟩ := @trimAt_eq _ mem _ after isBlank h.right.tail
      have hend : p + (key ++ e :: after).length = p + key.length + 1 + after.length := by
        rw [List.length_append, List.length_cons]
        omega
      simp only [Option.bind_eq_bind, Option.bind_some, if_neg hlim, hk, loadRange_eq hks]
      cases lookupKey (trim isBlank key) with
      | none => rfl
      | some k =>
          simp only []
          split
          · rfl
          · rw [hend, hv]
            simp only [Option.bind_some, loadRange_eq hvs]

theorem content_eq {cut : List Byte} (h : Stands mem p bs) (hcut : cut <+: bs) : ∃ q,
    trimAt mem isWs p (p + cut.length) = some (q, q + (trim isWs cut).length) ∧
      Stands mem q (trim isWs cut) :=
  trimAt_eq (h.ofPrefix hcut)

theorem parseLineAt_eq (st : PState) (h : Stands mem p bs) :
    parseLineAt mem (p + bs.length) st p
      = some ((parseLine st bs).map fun r => (r.1, p + bs.length - r.2.length)) := by
  have hparts := List.takeWhile_append_dropWhile (p := fun b => !endsLine b) (l := bs)
  rw [parseLineAt, scanFor_eq h, parseLine]
  generalize (bs.takeWhile fun b => !endsLine b) = line at hparts ⊢
  generalize (bs.dropWhile fun b => !endsLine b) = rest at hparts ⊢
  subst hparts
  have hmark : scanMark mem isWs isHash p (p + line.length) p
      = some (p + (cutComment isHash isWs true line).length) :=
    @scanMark_eq _ mem p [] line isWs isHash true h.left rfl
  obtain ⟨q, hq, hqs⟩ := content_eq h.left (cutComment_front isHash isWs line true)
  simp only [Option.bind_eq_bind, Option.bind_some, hmark, hq, advanceAt_eq h, range_empty,
    Option.map_some]
  rw [readLine]
  by_cases hnil : trim isWs (cutComment isHash isWs true line) = []
  · simp only [hnil, if_true]
    rfl
  · simp only [hnil, if_false, readEntryAt_eq st.seen hqs, Option.bind_some]
    cases partitionAt isEq (trim isWs (cutComment isHash isWs true line)) with
    | none => rfl
    | some kv =>
        obtain ⟨key, value⟩ := kv
        simp only []
        cases lookupKey (trim isBlank key) with
        | none => rfl
        | some k =>
            dsimp only
            cases wasSeen st.seen k with
            | true => rfl
            | false => cases validate k (trim isBlank value) <;> rfl

/-! ## The magic line -/

theorem checkMagicAt_eq : ∀ (n : Nat) {p : Nat} {bs : List Byte}, Stands mem p bs →
    bs.length ≤ n → checkMagicAt mem (p + bs.length) (n + 1) p
      = some ((checkMagic n bs).map fun rest => p + bs.length - rest.length) := by
  intro n
  induction n with
  | zero =>
      intro p bs _ hn
      have hnil : bs = [] := List.eq_nil_of_length_eq_zero (Nat.le_zero.mp hn)
      subst hnil
      simp [checkMagicAt, checkMagic]
  | succ n ih =>
      intro p bs h hn
      cases hbs : bs with
      | nil => simp [checkMagicAt, checkMagic]
      | cons b₀ bs₀ =>
          rw [← hbs, checkMagicAt, if_neg (by rw [hbs, List.length_cons]; omega), scanFor_eq h]
          have hlist := @checkMagic_turn n bs (by rw [hbs]; exact List.cons_ne_nil _ _)
          have hparts := List.takeWhile_append_dropWhile (p := fun b => !endsMagic b) (l := bs)
          rw [hlist]
          clear hlist hbs
          generalize (bs.takeWhile fun b => !endsMagic b) = line at hparts ⊢
          generalize (bs.dropWhile fun b => !endsMagic b) = rest at hparts ⊢
          subst hparts
          have hmark := @scanMark_second _ mem p line isWs isHash h.left
          obtain ⟨q, hq, hqs⟩ := content_eq h.left (cutComment_front isHash isWs line false)
          simp only [Option.bind_eq_bind, Option.bind_some, hmark, hq, range_empty,
            Nat.add_sub_cancel_left, loadRange_eq hqs]
          rw [readMagic]
          by_cases hnil : trim isWs (cutComment isHash isWs false line) = []
          · -- an empty line
            simp only [hnil, if_true]
            cases rest with
            | nil => simp
            | cons b after =>
                rw [if_neg (by simp), h.right.head]
                simp only [Option.bind_some]
                split
                · rfl
                · have hlim : p + (line ++ b :: after).length
                      = p + line.length + 1 + after.length := by
                    rw [List.length_append, List.length_cons]
                    omega
                  have hlen : after.length ≤ n := by
                    rw [List.length_append, List.length_cons] at hn
                    omega
                  rw [hlim]
                  exact ih h.right.tail hlen
          · simp only [hnil, if_false]
            by_cases hmagic : trim isWs (cutComment isHash isWs false line) = magic
            · simp only [hmagic, if_true, ne_eq, not_true_eq_false, if_false]
              cases rest with
              | nil => simp
              | cons b after =>
                  rw [if_neg (by simp), h.right.head]
                  simp only [Option.bind_some, Option.map_some]
                  congr 2
                  split
                  · rw [List.length_append, List.length_cons]
                    omega
                  · rw [List.length_append]
                    omega
            · simp only [hmagic, if_false, ne_eq, not_false_eq_true, if_true]
              split <;> rfl

/-! ## The file -/

theorem advance_parts {line rest : List Byte} (hne : line ++ rest ≠ []) :
    ∃ b a, line ++ rest = (b :: a) ++ advance rest := by
  have hcons : ∀ {xs : List Byte}, line ++ rest = xs ++ advance rest → xs ≠ [] →
      ∃ b a, line ++ rest = (b :: a) ++ advance rest := by
    intro xs hxs hnil
    obtain ⟨b, a, rfl⟩ := List.exists_cons_of_ne_nil hnil
    exact ⟨b, a, hxs⟩
  cases rest with
  | nil => exact @hcons line rfl (by simpa using hne)
  | cons b rest =>
      by_cases hb : b = 0x0A
      · exact @hcons (line ++ [b]) (by simp [advance, hb]) (by simp)
      · exact @hcons (line ++ b :: rest) (by simp [advance, hb]) (by simp)

theorem parseLine_parts {st st' : PState} {bs rest : List Byte}
    (h : parseLine st bs = .ok (st', rest)) (hne : bs ≠ []) : ∃ b a, bs = (b :: a) ++ rest := by
  have hparts := List.takeWhile_append_dropWhile (p := fun b => !endsLine b) (l := bs)
  rw [parseLine] at h
  cases hline : readLine st.seen (bs.takeWhile fun b => !endsLine b) with
  | error e =>
      rw [hline] at h
      cases h
  | ok entry =>
      rw [hline] at h
      cases h
      have hadv := @advance_parts (bs.takeWhile fun b => !endsLine b)
        (bs.dropWhile fun b => !endsLine b) (by rw [hparts]; exact hne)
      rwa [hparts] at hadv

theorem loopAt_eq : ∀ (n : Nat) {m p : Nat} {bs : List Byte} (st : PState), Stands mem p bs →
    bs.length ≤ n → bs.length ≤ m →
    loopAt mem (p + bs.length) (n + 1) st p = some (loop m st bs) := by
  intro n
  induction n with
  | zero =>
      intro m p bs st _ hn _
      have hnil : bs = [] := List.eq_nil_of_length_eq_zero (Nat.le_zero.mp hn)
      subst hnil
      simp [loopAt, loop]
  | succ n ih =>
      intro m p bs st h hn hm
      cases hbs : bs with
      | nil => simp [loopAt, loop]
      | cons b₀ bs₀ =>
          obtain ⟨m, rfl⟩ : ∃ m', m = m' + 1 := by
            rw [hbs, List.length_cons] at hm
            exact ⟨m - 1, by omega⟩
          have hne : bs ≠ [] := by
            rw [hbs]
            exact List.cons_ne_nil _ _
          have hlist := loop_turn m st hne
          rw [← hbs, hlist, loopAt, if_neg (by rw [hbs, List.length_cons]; omega),
            parseLineAt_eq st h]
          cases hline : parseLine st bs with
          | error e => rfl
          | ok r =>
              obtain ⟨st', rest⟩ := r
              obtain ⟨b, a, hparts⟩ := parseLine_parts hline hne
              rw [hparts] at h
              have hcursor : p + bs.length - rest.length = p + (b :: a).length := by
                rw [hparts, List.length_append]
                omega
              have hlim : p + bs.length = p + (b :: a).length + rest.length := by
                rw [hparts, List.length_append]
                omega
              rw [hparts, List.length_append, List.length_cons] at hn hm
              show loopAt mem (p + bs.length) (n + 1) st' (p + bs.length - rest.length) = _
              rw [hcursor, hlim]
              exact ih st' h.right (by omega) (by omega)

theorem checkMagic_parts : ∀ {n : Nat} {bs rest : List Byte}, checkMagic n bs = some rest →
    ∃ a, bs = a ++ rest := by
  intro n
  induction n with
  | zero =>
      intro bs rest h
      cases bs <;> cases h
  | succ n ih =>
      intro bs rest h
      have hparts := List.takeWhile_append_dropWhile (p := fun b => !endsMagic b) (l := bs)
      cases hbs : bs with
      | nil =>
          rw [hbs] at h
          cases h
      | cons b₀ bs₀ =>
          rw [hbs, checkMagic] at h
          rw [hbs] at hparts
          · generalize ((b₀ :: bs₀).takeWhile fun b => !endsMagic b) = line at hparts h
            generalize ((b₀ :: bs₀).dropWhile fun b => !endsMagic b) = after at hparts h
            rw [← hparts]
            cases hm : readMagic line with
            | other =>
                rw [hm] at h
                cases h
            | blank =>
                rw [hm] at h
                cases after with
                | nil => cases h
                | cons b after =>
                    simp only [] at h
                    split at h
                    · cases h
                    · obtain ⟨a, rfl⟩ := ih h
                      exact ⟨line ++ b :: a, by simp⟩
            | found =>
                rw [hm] at h
                cases after with
                | nil =>
                    cases h
                    exact ⟨line, rfl⟩
                | cons b after =>
                    cases h
                    split
                    · exact ⟨line ++ [b], by simp⟩
                    · exact ⟨line, rfl⟩
          · exact List.cons_ne_nil _ _

/-- **The cursor** makes of the bytes in memory what `configParse` makes of their list. -/
theorem configParseAt_eq (net : NetLabels) (h : Stands mem p bs) :
    configParseAt mem net p bs.length = some (configParse net bs) := by
  rw [configParseAt, configParse]
  simp only [Option.bind_eq_bind, checkMagicAt_eq bs.length h (Nat.le_refl _), Option.bind_some]
  cases hm : checkMagic bs.length bs with
  | none => rfl
  | some rest =>
      obtain ⟨a, hparts⟩ := checkMagic_parts hm
      rw [hparts] at h
      have hcursor : p + bs.length - rest.length = p + a.length := by
        rw [hparts, List.length_append]
        omega
      have hlim : p + bs.length = p + a.length + rest.length := by
        rw [hparts, List.length_append]
        omega
      have hlen : rest.length ≤ bs.length := by
        rw [hparts, List.length_append]
        omega
      simp only [Option.map_some, hcursor]
      rw [hlim]
      exact loopAt_eq _ _ h.right hlen (Nat.le_refl _)

end

/-! ## Behind the marker -/

/-- NUL and 0xFF. -/
def isMarker (b : Byte) : Prop := b = 0 ∨ b = 0xFF

theorem isMarker.endsLine {m : Byte} (h : isMarker m) : endsLine m = true := by
  obtain rfl | rfl := h <;> decide

theorem isMarker.endsMagic {m : Byte} (h : isMarker m) : endsMagic m = true := by
  obtain rfl | rfl := h <;> decide

theorem isMarker.not_lf {m : Byte} (h : isMarker m) : m ≠ 0x0A := by
  obtain rfl | rfl := h <;> decide

theorem isMarker.high {m : Byte} (h : isMarker m) : m = 0 ∨ 0x7E < m := by
  obtain rfl | rfl := h <;> decide

/-- A scan that the marker stops does not see what is behind it. -/
theorem span_marker {stop : Byte → Bool} {m : Byte} (hm : stop m = true) (pre s : List Byte) :
    (pre ++ m :: s).takeWhile (fun b => !stop b) = pre.takeWhile (fun b => !stop b) ∧
    (pre ++ m :: s).dropWhile (fun b => !stop b) = pre.dropWhile (fun b => !stop b) ++ m :: s := by
  induction pre with
  | nil => simp [hm]
  | cons b pre ih =>
      cases hb : stop b with
      | true => simp [hb]
      | false => simp [hb, ih.1, ih.2]

section
variable {m : Byte} {s s' : List Byte} (hm : isMarker m)
include hm

theorem checkMagic_marker : ∀ (n n' : Nat) (pre : List Byte), pre.length < n → pre.length < n' →
    (checkMagic n (pre ++ m :: s) = none ∧ checkMagic n' (pre ++ m :: s') = none) ∨
    ∃ a pre', pre = a ++ pre' ∧ checkMagic n (pre ++ m :: s) = some (pre' ++ m :: s) ∧
      checkMagic n' (pre ++ m :: s') = some (pre' ++ m :: s') := by
  intro n
  induction n with
  | zero => exact fun _ _ h => absurd h (Nat.not_lt_zero _)
  | succ n ih =>
      intro n' pre hn hn'
      obtain ⟨n', rfl⟩ : ∃ k, n' = k + 1 := ⟨n' - 1, by omega⟩
      have hparts := List.takeWhile_append_dropWhile (p := fun b => !endsMagic b) (l := pre)
      obtain ⟨htake, hdrop⟩ := span_marker hm.endsMagic pre s
      obtain ⟨htake', hdrop'⟩ := span_marker hm.endsMagic pre s'
      rw [checkMagic, checkMagic, htake, hdrop, htake', hdrop']
      · generalize (pre.takeWhile fun b => !endsMagic b) = line at hparts ⊢
        generalize (pre.dropWhile fun b => !endsMagic b) = rest at hparts ⊢
        cases readMagic line with
        | other => cases rest <;> exact .inl ⟨rfl, rfl⟩
        | blank =>
            cases rest with
            | nil => exact .inl ⟨if_pos hm.high, if_pos hm.high⟩
            | cons b after =>
                simp only [List.cons_append]
                split
                · exact .inl ⟨rfl, rfl⟩
                · rw [← hparts, List.length_append, List.length_cons] at hn hn'
                  obtain hnone | ⟨a, pre', hpre, hs, hs'⟩ :=
                    ih n' after (by omega) (by omega)
                  · exact .inl hnone
                  · refine .inr ⟨line ++ b :: a, pre', ?_, hs, hs'⟩
                    rw [← hparts, hpre]
                    simp
        | found =>
            cases rest with
            | nil =>
                simp only [List.nil_append, if_neg hm.not_lf]
                exact .inr ⟨pre, [], by simp, rfl, rfl⟩
            | cons b after =>
                simp only [List.cons_append]
                split
                · exact .inr ⟨line ++ [b], after, by rw [← hparts]; simp, rfl, rfl⟩
                · exact .inr ⟨line, b :: after, hparts.symm, rfl, rfl⟩
      · simp
      · simp

theorem loop_marker : ∀ (n n' : Nat) (st : PState) (pre : List Byte), pre.length < n →
    pre.length < n' → loop n st (pre ++ m :: s) = loop n' st (pre ++ m :: s') := by
  intro n
  induction n with
  | zero => exact fun _ _ _ h => absurd h (Nat.not_lt_zero _)
  | succ n ih =>
      intro n' st pre hn hn'
      obtain ⟨n', rfl⟩ : ∃ k, n' = k + 1 := ⟨n' - 1, by omega⟩
      have hparts := List.takeWhile_append_dropWhile (p := fun b => !endsLine b) (l := pre)
      obtain ⟨htake, hdrop⟩ := span_marker hm.endsLine pre s
      obtain ⟨htake', hdrop'⟩ := span_marker hm.endsLine pre s'
      rw [loop, loop, parseLine, parseLine, htake, hdrop, htake', hdrop']
      · generalize (pre.takeWhile fun b => !endsLine b) = line at hparts ⊢
        generalize (pre.dropWhile fun b => !endsLine b) = rest at hparts ⊢
        cases readLine st.seen line with
        | error e => rfl
        | ok entry =>
            show loop n (st.enter entry) (advance (rest ++ m :: s))
              = loop n' (st.enter entry) (advance (rest ++ m :: s'))
            cases rest with
            | nil =>
                -- the marker: the cursor goes to the limit
                simp only [List.nil_append, advance, if_neg hm.not_lf]
                cases n <;> cases n' <;> rfl
            | cons b after =>
                simp only [List.cons_append, advance]
                split
                · rw [← hparts, List.length_append, List.length_cons] at hn hn'
                  exact ih n' (st.enter entry) after (by omega) (by omega)
                · cases n <;> cases n' <;> rfl
      · simp
      · simp

theorem configParse_marker (net : NetLabels) (pre : List Byte) :
    configParse net (pre ++ m :: s) = configParse net (pre ++ m :: s') := by
  have hlen : ∀ t : List Byte, pre.length < (pre ++ m :: t).length := by
    intro t
    simp
  rw [configParse, configParse]
  obtain ⟨hs, hs'⟩ | ⟨a, pre', hpre, hs, hs'⟩ := checkMagic_marker hm _ _ pre (hlen s) (hlen s')
  · rw [hs, hs']
  · rw [hs, hs']
    exact loop_marker hm _ _ _ pre' (by simp) (by simp)

end

/-- **The end of the file.**  On a memory that has the bytes of the buffer and no others the parse
comes to an end, with the result of `configParse`; and what stands behind a NUL or an 0xFF changes
 neither the result nor what is stored, wherever the buffer lies and however long it is. -/
theorem config_parse_marker :
    (∀ (net : NetLabels) (start : Nat) (bs : List Byte),
      configParseAt (region start bs) net start bs.length = some (configParse net bs)) ∧
    ∀ (net : NetLabels) (start start' : Nat) (pre s s' : List Byte) (m : Byte), isMarker m →
      configParseAt (region start (pre ++ m :: s)) net start (pre ++ m :: s).length
        = configParseAt (region start' (pre ++ m :: s')) net start' (pre ++ m :: s').length := by
  refine ⟨fun net start bs => configParseAt_eq net (stands_region start bs), ?_⟩
  intro net start start' pre s s' m hm
  rw [configParseAt_eq net (stands_region start _), configParseAt_eq net (stands_region start' _),
    configParse_marker hm]

/-- Stale bytes behind the NUL of two buffers at different places. -/
theorem config_parse_marker_demo :
    configParseAt (region 0x8000 (magic ++ 0 :: [0x0A, 0x78, 0x3D])) default 0x8000
        (magic ++ 0 :: [0x0A, 0x78, 0x3D]).length
      = configParseAt (region 0 (magic ++ 0 :: [])) default 0 (magic ++ 0 :: []).length :=
  config_parse_marker.2 default 0x8000 0 magic [0x0A, 0x78, 0x3D] [] 0 (.inl rfl)

end WsPi5.ConfigParser
