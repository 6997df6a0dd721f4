import Mathlib.Data.List.Basic

/-!
# Percent encoding

A text decodes to bytes in one way at most, and `Decodes text bytes` is the derivation: a
byte for itself, or `%` and two hexadecimal digits for the byte they spell. `unescape`
finds the derivation, and `escape` writes a text that has one.

A separator may stand in a text for itself or as an escape, and the two are not the same:
`segments` splits at the first kind and decodes the pieces. Splitting the decoded bytes
gives the same pieces just when the second kind does not occur.
-/

namespace ApiGateway.Lib

/-- The byte `%`. -/
def percent : UInt8 := 37

def hexVal (c : UInt8) : Option Nat :=
  if 48 ≤ c.toNat ∧ c.toNat ≤ 57 then some (c.toNat - 48)
  else if 97 ≤ c.toNat ∧ c.toNat ≤ 102 then some (c.toNat - 87)
  else if 65 ≤ c.toNat ∧ c.toNat ≤ 70 then some (c.toNat - 55)
  else none

/-- The digit `n`, in upper case. -/
def hexDigit (n : Nat) : UInt8 := if n < 10 then UInt8.ofNat (48 + n) else UInt8.ofNat (55 + n)

/-- The byte two digits spell. -/
def hexByte (hi lo : UInt8) : Option UInt8 := do
  let h ← hexVal hi
  let l ← hexVal lo
  return UInt8.ofNat (16 * h + l)

def unescape : List UInt8 → Option (List UInt8)
  | [] => some []
  | c :: rest =>
    if c = percent then
      match rest with
      | hi :: lo :: rest' => do
        let b ← hexByte hi lo
        let bs ← unescape rest'
        return b :: bs
      | _ => none
    else do
      let bs ← unescape rest
      return c :: bs

/-- The text with every byte escaped that `esc` says must be. -/
def escape (esc : UInt8 → Bool) : List UInt8 → List UInt8
  | [] => []
  | b :: bs =>
    if esc b then percent :: hexDigit (b.toNat / 16) :: hexDigit (b.toNat % 16) :: escape esc bs
    else b :: escape esc bs

inductive Decodes : List UInt8 → List UInt8 → Prop where
  | nil : Decodes [] []
  | lit {b : UInt8} {text bytes : List UInt8} :
      b ≠ percent → Decodes text bytes → Decodes (b :: text) (b :: bytes)
  | esc {hi lo b : UInt8} {text bytes : List UInt8} :
      hexByte hi lo = some b → Decodes text bytes →
      Decodes (percent :: hi :: lo :: text) (b :: bytes)

/-- The pieces of a text between its separators, each decoded. -/
def segments (sep : UInt8) (text : List UInt8) : Option (List (List UInt8)) :=
  (text.splitOn sep).mapM unescape

/-- Some escape in the text spells the separator. -/
def EscapedSep (sep : UInt8) (text : List UInt8) : Prop :=
  ∃ hi lo, hexByte hi lo = some sep ∧ [percent, hi, lo] <:+: text

/-! ## Digits -/

theorem hexVal_lt {c : UInt8} {n : Nat} (h : hexVal c = some n) : n < 16 := by
  unfold hexVal at h
  split at h
  · simp only [Option.some.injEq] at h; omega
  · split at h
    · simp only [Option.some.injEq] at h; omega
    · split at h
      · simp only [Option.some.injEq] at h; omega
      · cases h

theorem hexVal_hexDigit {n : Nat} (h : n < 16) : hexVal (hexDigit n) = some n := by
  have hall : ∀ k : Fin 16, hexVal (hexDigit k.val) = some k.val := by decide
  exact hall ⟨n, h⟩

theorem hexByte_hexDigit (b : UInt8) :
    hexByte (hexDigit (b.toNat / 16)) (hexDigit (b.toNat % 16)) = some b := by
  have hb : b.toNat < 256 := b.toNat_lt
  unfold hexByte
  rw [hexVal_hexDigit (by omega), hexVal_hexDigit (by omega)]
  show some (UInt8.ofNat (16 * (b.toNat / 16) + b.toNat % 16)) = some b
  rw [Nat.div_add_mod]
  exact congrArg some (UInt8.ofNat_toNat)

/-- The digits of an escape have values. -/
theorem hexByte_some {hi lo b : UInt8} (h : hexByte hi lo = some b) :
    ∃ m n, hexVal hi = some m ∧ hexVal lo = some n ∧ b = UInt8.ofNat (16 * m + n) := by
  unfold hexByte at h
  cases hm : hexVal hi with
  | none => rw [hm] at h; cases h
  | some m =>
      cases hn : hexVal lo with
      | none => rw [hm, hn] at h; cases h
      | some n =>
          rw [hm, hn] at h
          exact ⟨m, n, rfl, rfl, (Option.some.inj h).symm⟩

/-- A byte that is no digit is neither digit of an escape. -/
theorem ne_of_hexByte {hi lo b c : UInt8} (h : hexByte hi lo = some b) (hc : hexVal c = none) :
    hi ≠ c ∧ lo ≠ c := by
  obtain ⟨m, n, hm, hn, _⟩ := hexByte_some h
  refine ⟨?_, ?_⟩
  · intro heq
    rw [heq, hc] at hm
    cases hm
  · intro heq
    rw [heq, hc] at hn
    cases hn

theorem hexVal_percent : hexVal percent = none := rfl

/-! ## Decoding -/

theorem unescape_lit {b : UInt8} (h : b ≠ percent) (text : List UInt8) :
    unescape (b :: text) = (unescape text).map (b :: ·) := by
  rw [unescape.eq_def]
  simp only [if_neg h]
  cases unescape text with
  | none => rfl
  | some bs => rfl

theorem unescape_percent (rest : List UInt8) :
    unescape (percent :: rest) =
      match rest with
      | hi :: lo :: rest' => do
        let b ← hexByte hi lo
        let bs ← unescape rest'
        return b :: bs
      | _ => none := by
  rw [unescape.eq_def]
  exact if_pos rfl

theorem unescape_esc {hi lo b : UInt8} (h : hexByte hi lo = some b) (text : List UInt8) :
    unescape (percent :: hi :: lo :: text) = (unescape text).map (b :: ·) := by
  rw [unescape_percent]
  simp only [h]
  cases unescape text with
  | none => rfl
  | some bs => rfl

theorem unescape_of_decodes {text bytes : List UInt8} (h : Decodes text bytes) :
    unescape text = some bytes := by
  induction h with
  | nil => rfl
  | lit hb _ ih => rw [unescape_lit hb, ih]; rfl
  | esc hb _ ih => rw [unescape_esc hb, ih]; rfl

theorem decodes_of_unescape {text bytes : List UInt8} (h : unescape text = some bytes) :
    Decodes text bytes := by
  induction text using unescape.induct generalizing bytes with
  | case1 =>
      cases h
      exact .nil
  | case2 hi lo rest ih =>
      cases hb : hexByte hi lo with
      | none =>
          rw [unescape_percent] at h
          simp only [hb] at h
          cases h
      | some b =>
          rw [unescape_esc hb] at h
          obtain ⟨bs, hbs, rfl⟩ := Option.map_eq_some_iff.mp h
          exact .esc hb (ih hbs)
  | case3 rest hshort =>
      -- a percent sign with fewer than two bytes after it
      rw [unescape_percent] at h
      split at h
      · exact (hshort _ _ _ rfl).elim
      · cases h
  | case4 c rest hc ih =>
      rw [unescape_lit hc] at h
      obtain ⟨bs, hbs, rfl⟩ := Option.map_eq_some_iff.mp h
      exact .lit hc (ih hbs)

/-- The derivation `unescape` finds is the only one there is. -/
theorem decodes_iff {text bytes : List UInt8} : Decodes text bytes ↔ unescape text = some bytes :=
  ⟨unescape_of_decodes, decodes_of_unescape⟩

theorem decodes_escape {esc : UInt8 → Bool} (h : esc percent = true) (bytes : List UInt8) :
    Decodes (escape esc bytes) bytes := by
  induction bytes with
  | nil => exact .nil
  | cons b bs ih =>
      rw [escape]
      split
      · exact .esc (hexByte_hexDigit b) ih
      · next hlit =>
          refine .lit ?_ ih
          rintro rfl
          exact hlit h

/-! ## Escaped separators -/

theorem not_escapedSep_nil (sep : UInt8) : ¬ EscapedSep sep [] := by
  rintro ⟨hi, lo, _, hin⟩
  exact absurd (List.eq_nil_of_infix_nil hin) (List.cons_ne_nil _ _)

theorem escapedSep_lit {b : UInt8} (h : b ≠ percent) (sep : UInt8) (text : List UInt8) :
    EscapedSep sep (b :: text) ↔ EscapedSep sep text := by
  refine ⟨?_, ?_⟩
  · rintro ⟨hi, lo, hb, hin⟩
    rcases List.infix_cons_iff.mp hin with hpre | hin
    · exact absurd (List.cons_prefix_cons.mp hpre).1 (Ne.symm h)
    · exact ⟨hi, lo, hb, hin⟩
  · rintro ⟨hi, lo, hb, hin⟩
    exact ⟨hi, lo, hb, List.infix_cons_iff.mpr (.inr hin)⟩

theorem escapedSep_esc {hi lo b : UInt8} (h : hexByte hi lo = some b) (sep : UInt8)
    (text : List UInt8) :
    EscapedSep sep (percent :: hi :: lo :: text) ↔ b = sep ∨ EscapedSep sep text := by
  obtain ⟨hhi, hlo⟩ := ne_of_hexByte h hexVal_percent
  have htail := (escapedSep_lit hhi sep (lo :: text)).trans (escapedSep_lit hlo sep text)
  rw [← htail]
  refine ⟨?_, ?_⟩
  · rintro ⟨hi', lo', hb, hin⟩
    rcases List.infix_cons_iff.mp hin with hpre | hin
    · -- neither digit is a percent sign, so the escape found is this one
      obtain ⟨rfl, hrest⟩ := List.cons_prefix_cons.mp (List.cons_prefix_cons.mp hpre).2
      obtain ⟨rfl, _⟩ := List.cons_prefix_cons.mp hrest
      exact .inl (Option.some.inj (h.symm.trans hb))
    · exact .inr ⟨hi', lo', hb, hin⟩
  · rintro (rfl | ⟨hi', lo', hb, hin⟩)
    · exact ⟨hi, lo, h, ⟨[], text, rfl⟩⟩
    · exact ⟨hi', lo', hb, List.infix_cons_iff.mpr (.inr hin)⟩

/-- A separator that is left as it is does not come out escaped. -/
theorem not_escapedSep_escape {esc : UInt8 → Bool} {sep : UInt8} (hpct : esc percent = true)
    (hsep : esc sep = false) (bytes : List UInt8) : ¬ EscapedSep sep (escape esc bytes) := by
  induction bytes with
  | nil => exact not_escapedSep_nil sep
  | cons b bs ih =>
      rw [escape]
      split
      · next hesc =>
          rw [escapedSep_esc (hexByte_hexDigit b)]
          rintro (rfl | hin)
          · rw [hsep] at hesc
            cases hesc
          · exact ih hin
      · next hlit =>
          rwa [escapedSep_lit]
          rintro rfl
          exact hlit hpct

/-! ## Splitting -/

section

variable {α : Type*} [DecidableEq α]

theorem splitOn_sep (sep : α) (text : List α) :
    (sep :: text).splitOn sep = [] :: text.splitOn sep := by
  rw [List.splitOn_cons_eq_if_modifyHead, if_pos (beq_self_eq_true sep)]

theorem splitOn_cons_ne {b sep : α} (h : b ≠ sep) (text : List α) :
    (b :: text).splitOn sep = (text.splitOn sep).modifyHead (b :: ·) := by
  rw [List.splitOn_cons_eq_if_modifyHead, if_neg (by simpa using h)]

/-- Splitting leaves no separator in a piece. -/
theorem not_mem_of_mem_splitOn {sep : α} {text piece : List α} (h : piece ∈ text.splitOn sep) :
    sep ∉ piece := by
  induction text generalizing piece with
  | nil =>
      cases List.mem_singleton.mp h
      exact List.not_mem_nil
  | cons b text ih =>
      by_cases hb : b = sep
      · subst hb
        rw [splitOn_sep] at h
        rcases List.mem_cons.mp h with rfl | h
        · exact List.not_mem_nil
        · exact ih h
      · rw [splitOn_cons_ne hb] at h
        obtain ⟨x, xs, hsplit⟩ := List.exists_cons_of_ne_nil (List.splitOn_ne_nil sep text)
        rw [hsplit] at h ih
        rcases List.mem_cons.mp h with rfl | h
        · exact List.not_mem_cons_of_ne_of_not_mem (Ne.symm hb) (ih List.mem_cons_self)
        · exact ih (List.mem_cons_of_mem x h)

end

/-! ## Segments -/

/-- A step of the decoder on the first piece is a step on the decoded first piece. -/
theorem mapM_modifyHead {b : UInt8} {f : List UInt8 → List UInt8}
    (h : ∀ text, unescape (f text) = (unescape text).map (b :: ·)) (pieces : List (List UInt8)) :
    (pieces.modifyHead f).mapM unescape =
      (pieces.mapM unescape).map (List.modifyHead (b :: ·)) := by
  cases pieces with
  | nil => rfl
  | cons x xs =>
      rw [List.modifyHead_cons, List.mapM_cons, List.mapM_cons, h]
      cases unescape x with
      | none => rfl
      | some bs =>
          cases xs.mapM unescape with
          | none => rfl
          | some bss => rfl

theorem segments_sep (sep : UInt8) (text : List UInt8) :
    segments sep (sep :: text) = (segments sep text).map ([] :: ·) := by
  unfold segments
  rw [splitOn_sep, List.mapM_cons]
  cases (text.splitOn sep).mapM unescape with
  | none => rfl
  | some bss => rfl

theorem segments_lit {b sep : UInt8} (hb : b ≠ percent) (hsep : b ≠ sep) (text : List UInt8) :
    segments sep (b :: text) = (segments sep text).map (List.modifyHead (b :: ·)) := by
  unfold segments
  rw [splitOn_cons_ne hsep]
  exact mapM_modifyHead (unescape_lit hb) _

theorem segments_esc {hi lo b sep : UInt8} (h : hexByte hi lo = some b) (hpct : percent ≠ sep)
    (hdigit : hexVal sep = none) (text : List UInt8) :
    segments sep (percent :: hi :: lo :: text) =
      (segments sep text).map (List.modifyHead (b :: ·)) := by
  obtain ⟨hhi, hlo⟩ := ne_of_hexByte h hdigit
  unfold segments
  rw [splitOn_cons_ne hpct, splitOn_cons_ne hhi, splitOn_cons_ne hlo, List.modifyHead_modifyHead,
    List.modifyHead_modifyHead]
  exact mapM_modifyHead (unescape_esc h) _

/-- A separator in some piece stays there when the first piece grows. -/
theorem mem_modifyHead {sep : UInt8} {x piece : List UInt8} {xs : List (List UInt8)}
    (hmem : piece ∈ x :: xs) (hin : sep ∈ piece) (b : UInt8) :
    ∃ piece' ∈ (b :: x) :: xs, sep ∈ piece' := by
  rcases List.mem_cons.mp hmem with rfl | hmem
  · exact ⟨b :: piece, List.mem_cons_self, List.mem_cons_of_mem b hin⟩
  · exact ⟨piece, List.mem_cons_of_mem _ hmem, hin⟩

section

variable {sep : UInt8} {text bytes : List UInt8}

theorem exists_segments (hpct : percent ≠ sep) (hdigit : hexVal sep = none)
    (h : Decodes text bytes) : ∃ x xs, segments sep text = some (x :: xs) := by
  induction h with
  | nil => exact ⟨[], [], rfl⟩
  | @lit b text bytes hb _ ih =>
      obtain ⟨x, xs, hseg⟩ := ih
      by_cases hbs : b = sep
      · subst hbs
        exact ⟨[], x :: xs, by rw [segments_sep, hseg]; rfl⟩
      · exact ⟨b :: x, xs, by rw [segments_lit hb hbs, hseg]; rfl⟩
  | @esc hi lo b text bytes hb _ ih =>
      obtain ⟨x, xs, hseg⟩ := ih
      exact ⟨b :: x, xs, by rw [segments_esc hb hpct hdigit, hseg]; rfl⟩

/-- Without escaped separators, splitting before decoding is splitting after it. -/
theorem segments_eq_splitOn (hpct : percent ≠ sep) (hdigit : hexVal sep = none)
    (h : Decodes text bytes) (hno : ¬ EscapedSep sep text) :
    segments sep text = some (bytes.splitOn sep) := by
  induction h with
  | nil => rfl
  | @lit b text bytes hb _ ih =>
      rw [escapedSep_lit hb] at hno
      by_cases hbs : b = sep
      · subst hbs
        rw [segments_sep, ih hno, splitOn_sep]
        rfl
      · rw [segments_lit hb hbs, ih hno, splitOn_cons_ne hbs]
        rfl
  | @esc hi lo b text bytes hb _ ih =>
      rw [escapedSep_esc hb] at hno
      have hbs : b ≠ sep := fun heq => hno (.inl heq)
      rw [segments_esc hb hpct hdigit, ih (fun hin => hno (.inr hin)), splitOn_cons_ne hbs]
      rfl

/-- An escaped separator ends up inside a piece. -/
theorem exists_mem_of_escapedSep (hpct : percent ≠ sep) (hdigit : hexVal sep = none)
    (h : Decodes text bytes) (hesc : EscapedSep sep text) {pieces : List (List UInt8)}
    (hseg : segments sep text = some pieces) : ∃ piece ∈ pieces, sep ∈ piece := by
  induction h generalizing pieces with
  | nil => exact absurd hesc (not_escapedSep_nil sep)
  | @lit b text bytes hb hrest ih =>
      rw [escapedSep_lit hb] at hesc
      obtain ⟨x, xs, hxs⟩ := exists_segments hpct hdigit hrest
      obtain ⟨piece, hmem, hin⟩ := ih hesc hxs
      by_cases hbs : b = sep
      · -- a new piece in front
        subst hbs
        rw [segments_sep, hxs] at hseg
        cases hseg
        exact ⟨piece, List.mem_cons_of_mem _ hmem, hin⟩
      · rw [segments_lit hb hbs, hxs] at hseg
        cases hseg
        exact mem_modifyHead hmem hin b
  | @esc hi lo b text bytes hb hrest ih =>
      rw [escapedSep_esc hb] at hesc
      obtain ⟨x, xs, hxs⟩ := exists_segments hpct hdigit hrest
      rw [segments_esc hb hpct hdigit, hxs] at hseg
      cases hseg
      rcases hesc with rfl | hesc
      · -- this escape is the separator, and it is decoded into the first piece
        exact ⟨b :: x, List.mem_cons_self, List.mem_cons_self⟩
      · obtain ⟨piece, hmem, hin⟩ := ih hesc hxs
        exact mem_modifyHead hmem hin b

end

end ApiGateway.Lib
