/-
# `Alex.Scanf` — what the readers make of a line

`scanf("%d %d", …)` reads over newlines as over any white space, and `flushInput` stops
at one, or at the byte that a `char` has in common with EOF.  So what is left of a line,
with its newline, either holds the end of a scan, wherever it comes to a character that
does not fit, or the scan goes on with the next line:

    scanInts_line     the three ways, by how many numbers the line has for it
    unscanned         what the scan leaves of the line, if it ends there

The parameters behind a command are a line of two numbers (`TwoIntegers`).  A scan that
gets so far ends in it.
-/
import Alex.Keyboard

namespace Alex

namespace Terminal

/-! ## A line -/

theorem flushInput_cons_of_ne {c : UInt8} (hn : c ≠ newline) (he : c ≠ eofChar)
    (rest : List UInt8) : flushInput (c :: rest) = flushInput rest :=
  if_neg (not_or.mpr ⟨hn, he⟩)

/-- `flushInput` takes the rest of a line, and the newline. -/
theorem flushInput_line {bytes : List UInt8} (h : ∀ b ∈ bytes, b ≠ newline ∧ b ≠ eofChar)
    (rest : List UInt8) : flushInput (bytes ++ newline :: rest) = (rest, false) := by
  induction bytes with
  | nil => exact if_pos (.inl rfl)
  | cons b bytes ih =>
      obtain ⟨hnewline, heof⟩ := h b List.mem_cons_self
      rw [List.cons_append, flushInput_cons_of_ne hnewline heof]
      exact ih fun c hc => h c (List.mem_cons_of_mem _ hc)

theorem newline_notMem_of_flushInput {input : List UInt8} (h : (flushInput input).2 = true) :
    newline ∉ input := by
  induction input with
  | nil => exact List.not_mem_nil
  | cons c rest ih =>
      rw [flushInput] at h
      split at h
      · exact absurd h Bool.false_ne_true
      · rename_i hno
        intro hm
        rcases List.mem_cons.mp hm with rfl | hm
        · exact hno (.inl rfl)
        · exact ih h hm

/-- `-12`, `+5`, `50` -/
def Numeral (word : List UInt8) : Prop :=
  ∃ sign digits, word = sign ++ digits ∧ (sign = [] ∨ sign = [45] ∨ sign = [43]) ∧
    digits ≠ [] ∧ ∀ d ∈ digits, isDigit d = true

/-- Two decimal integers, between them and around them white space. -/
def TwoIntegers (input : List UInt8) : Prop :=
  ∃ before first between second after,
    input = before ++ (first ++ (between ++ (second ++ after))) ∧
    (∀ c ∈ before ++ (between ++ after), isSpace c = true) ∧ between ≠ [] ∧
    Numeral first ∧ Numeral second

theorem lt_of_isSpace {c : UInt8} (h : isSpace c = true) : c.toNat < 66 := by
  simp [isSpace, UInt8.le_iff_toNat_le, ← UInt8.toNat_inj] at h
  omega

theorem lt_of_isDigit {c : UInt8} (h : isDigit c = true) : c.toNat < 66 := by
  simp [isDigit, UInt8.le_iff_toNat_le] at h
  omega

theorem isDigit_of_isSpace {c : UInt8} (h : isSpace c = true) : isDigit c = false := by
  simp [isSpace, isDigit, UInt8.le_iff_toNat_le, ← UInt8.toNat_inj] at h ⊢
  omega

/-! ## One number -/

theorem dropWhile_isSpace {gap : List UInt8} (h : ∀ c ∈ gap, isSpace c = true) {c : UInt8}
    (hc : isSpace c = false) (rest : List UInt8) :
    (gap ++ c :: rest).dropWhile isSpace = c :: rest := by
  rw [List.dropWhile_append_of_pos h, List.dropWhile_cons, hc]
  rfl

theorem scanInt_space {gap : List UInt8} (h : ∀ c ∈ gap, isSpace c = true) (rest : List UInt8) :
    scanInt (gap ++ newline :: rest) = scanInt rest := by
  have hdrop : (gap ++ newline :: rest).dropWhile isSpace = rest.dropWhile isSpace := by
    rw [List.dropWhile_append_of_pos h, List.dropWhile_cons]
    rfl
  rw [scanInt, scanInt, hdrop]

theorem takeWhile_isDigit_line (s rest : List UInt8) :
    (s ++ newline :: rest).takeWhile isDigit = s.takeWhile isDigit := by
  induction s with
  | nil => rfl
  | cons c s ih => rw [List.cons_append, List.takeWhile_cons, List.takeWhile_cons, ih]

theorem dropWhile_isDigit_line (s rest : List UInt8) :
    (s ++ newline :: rest).dropWhile isDigit = s.dropWhile isDigit ++ newline :: rest := by
  induction s with
  | nil => rfl
  | cons c s ih =>
      rw [List.cons_append, List.dropWhile_cons, List.dropWhile_cons, ih]
      split <;> rfl

theorem scanDigits_line (s : List UInt8) : ∃ value w, w <:+ s ∧
    ∀ rest, scanDigits (s ++ newline :: rest) = (value, w ++ newline :: rest) := by
  by_cases hs : s.takeWhile isDigit = []
  · refine ⟨none, s, List.suffix_rfl, fun rest => ?_⟩
    rw [scanDigits, takeWhile_isDigit_line, if_pos hs]
  · refine ⟨some (.ofNat ((s.takeWhile isDigit).foldl (fun n d => 10 * n + (d.toNat - 48)) 0)),
      s.dropWhile isDigit, List.dropWhile_suffix isDigit, fun rest => ?_⟩
    rw [scanDigits, takeWhile_isDigit_line, dropWhile_isDigit_line, if_neg hs]

theorem scanSign_line (c : UInt8) (s : List UInt8) : ∃ negative w, w <:+ c :: s ∧
    ∀ rest, scanSign (c :: s ++ rest) = (negative, w ++ rest) := by
  by_cases h45 : c = 45
  · exact ⟨true, s, List.suffix_cons c s, fun rest => if_pos h45⟩
  · by_cases h43 : c = 43
    · exact ⟨false, s, List.suffix_cons c s, fun rest => (if_neg h45).trans (if_pos h43)⟩
    · exact ⟨false, c :: s, List.suffix_rfl, fun rest => (if_neg h45).trans (if_neg h43)⟩

/-- The rest of a line is white space, or a scan ends in it. -/
theorem scanInt_line (u : List UInt8) : (∀ c ∈ u, isSpace c = true) ∨
    ∃ value w, w <:+ u ∧
      ∀ rest, scanInt (u ++ newline :: rest) = (value, w ++ newline :: rest) := by
  by_cases h : ∀ c ∈ u, isSpace c = true
  · exact .inl h
  · right
    cases hd : u.dropWhile isSpace with
    | nil => exact absurd (List.dropWhile_eq_nil_iff.mp hd) h
    | cons c v =>
        obtain ⟨negative, s, hs, hsign⟩ := scanSign_line c v
        obtain ⟨value, w, hw, hdigits⟩ := scanDigits_line s
        refine ⟨value.map fun n => if negative then 0 - n else n, w,
          hw.trans (hs.trans (hd ▸ List.dropWhile_suffix _)), fun rest => ?_⟩
        have hdrop : (u ++ newline :: rest).dropWhile isSpace = c :: v ++ newline :: rest := by
          rw [List.dropWhile_append, hd]
          rfl
        simp only [scanInt, hdrop, hsign, hdigits]

/-! ## Two numbers -/

theorem scanInts_snd (params : Params) (input : List UInt8) :
    (scanInts params input).2 =
      if (scanInt input).1 = none then (scanInt input).2 else (scanInt (scanInt input).2).2 := by
  rw [scanInts]
  rcases scanInt input with ⟨_ | p0, rest⟩
  · rfl
  · rcases hrest : scanInt rest with ⟨_ | p1, rest'⟩
    · simp [hrest]
    · simp [hrest]

/-- What a line makes of the scan for two numbers: it ends in the line, goes on behind it,
or goes on behind it with the second. -/
theorem scanInts_line (u : List UInt8) :
    (∃ w, w <:+ u ∧
      ∀ params rest, (scanInts params (u ++ newline :: rest)).2 = w ++ newline :: rest) ∨
      (∀ params rest, (scanInts params (u ++ newline :: rest)).2 = (scanInts params rest).2) ∨
      ∀ params rest, (scanInts params (u ++ newline :: rest)).2 = (scanInt rest).2 := by
  rcases scanInt_line u with hspace | ⟨value, w, hw, hscan⟩
  · refine .inr (.inl fun params rest => ?_)
    rw [scanInts_snd, scanInts_snd, scanInt_space hspace]
  · cases value with
    | none =>
        refine .inl ⟨w, hw, fun params rest => ?_⟩
        rw [scanInts_snd, hscan, if_pos rfl]
    | some p0 =>
        rcases scanInt_line w with hspace | ⟨value', w', hw', hscan'⟩
        · refine .inr (.inr fun params rest => ?_)
          rw [scanInts_snd, hscan, if_neg (Option.some_ne_none _), scanInt_space hspace]
        · refine .inl ⟨w', hw'.trans hw, fun params rest => ?_⟩
          rw [scanInts_snd, hscan, if_neg (Option.some_ne_none _), hscan']

/-- What the scan for two numbers leaves of a line, if it ends there. -/
def unscanned (u : List UInt8) : Option (List UInt8) :=
  match (scanInts ⟨0, 0⟩ (u ++ [newline])).2 with
  | [] => none
  | c :: rest => some (c :: rest).dropLast

/-! ## A line of two numbers -/

theorem takeWhile_isDigit_of_isSpace {gap : List UInt8} (h : ∀ c ∈ gap, isSpace c = true)
    (hne : gap ≠ []) (rest : List UInt8) : (gap ++ rest).takeWhile isDigit = [] := by
  cases gap with
  | nil => exact absurd rfl hne
  | cons c gap =>
      have hc := isDigit_of_isSpace (h c List.mem_cons_self)
      simp [hc]

theorem scanDigits_digits {digits : List UInt8} (hd : ∀ d ∈ digits, isDigit d = true)
    (hne : digits ≠ []) {rest : List UInt8} (hrest : rest.takeWhile isDigit = []) :
    ∃ value, scanDigits (digits ++ rest) = (some value, rest) := by
  have htake : (digits ++ rest).takeWhile isDigit = digits := by
    rw [List.takeWhile_append_of_pos hd, hrest, List.append_nil]
  have hdrop : (digits ++ rest).dropWhile isDigit = rest := by
    have hall := List.takeWhile_append_dropWhile (p := isDigit) (l := rest)
    rw [hrest, List.nil_append] at hall
    rw [List.dropWhile_append_of_pos hd, hall]
  rw [scanDigits, htake, hdrop, if_neg hne]
  exact ⟨_, rfl⟩

theorem scanInt_numeral {gap word rest : List UInt8} (hgap : ∀ c ∈ gap, isSpace c = true)
    (hword : Numeral word) (hrest : rest.takeWhile isDigit = []) :
    ∃ value, scanInt (gap ++ (word ++ rest)) = (some value, rest) := by
  obtain ⟨sign, digits, rfl, hsign, hne, hd⟩ := hword
  obtain ⟨value, hvalue⟩ := scanDigits_digits hd hne hrest
  have hread (negative : Bool)
      (hskip : scanSign ((gap ++ (sign ++ digits ++ rest)).dropWhile isSpace) =
        (negative, digits ++ rest)) :
      ∃ value, scanInt (gap ++ (sign ++ digits ++ rest)) = (some value, rest) := by
    refine ⟨if negative then 0 - value else value, ?_⟩
    simp only [scanInt, hskip, hvalue, Option.map_some]
  rcases hsign with rfl | rfl | rfl
  · cases digits with
    | nil => exact absurd rfl hne
    | cons d digits =>
        have hdigit := hd d List.mem_cons_self
        have hspace : isSpace d = false := by
          by_contra h
          rw [isDigit_of_isSpace (Bool.not_eq_false _ ▸ h)] at hdigit
          exact nomatch hdigit
        have hsigns : d ≠ 45 ∧ d ≠ 43 := by
          constructor
          · rintro rfl
            exact nomatch hdigit
          · rintro rfl
            exact nomatch hdigit
        refine hread false ?_
        rw [List.nil_append, List.cons_append, dropWhile_isSpace hgap hspace, scanSign,
          if_neg hsigns.1, if_neg hsigns.2]
  · refine hread true ?_
    rw [List.singleton_append, List.cons_append, dropWhile_isSpace hgap rfl]
    rfl
  · refine hread false ?_
    rw [List.singleton_append, List.cons_append, dropWhile_isSpace hgap rfl]
    rfl

theorem TwoIntegers.scanned {line : List UInt8} (h : TwoIntegers line) (rest : List UInt8) :
    (∃ gap, gap <:+ line ∧ (scanInt (line ++ newline :: rest)).2 = gap ++ newline :: rest) ∧
      ∃ gap, gap <:+ line ∧
        ∀ params, (scanInts params (line ++ newline :: rest)).2 = gap ++ newline :: rest := by
  obtain ⟨before, first, between, second, after, rfl, hspace, hne, hfirst, hsecond⟩ := h
  have hbefore : ∀ c ∈ before, isSpace c = true := fun c hc =>
    hspace c (List.mem_append_left _ hc)
  have hbetween : ∀ c ∈ between, isSpace c = true := fun c hc =>
    hspace c (List.mem_append_right _ (List.mem_append_left _ hc))
  have hafter : ∀ c ∈ after ++ [newline], isSpace c = true := by
    intro c hc
    rcases List.mem_append.mp hc with hc | hc
    · exact hspace c (List.mem_append_right _ (List.mem_append_right _ hc))
    · rw [List.mem_singleton.mp hc]
      rfl
  have hend : (after ++ newline :: rest).takeWhile isDigit = [] := by
    rw [List.append_cons]
    exact takeWhile_isDigit_of_isSpace hafter (List.concat_ne_nil _ _) rest
  obtain ⟨p1, hp1⟩ := scanInt_numeral hbetween hsecond hend
  obtain ⟨p0, hp0⟩ := scanInt_numeral hbefore hfirst
    (takeWhile_isDigit_of_isSpace hbetween hne (second ++ (after ++ newline :: rest)))
  have hassoc : before ++ (first ++ (between ++ (second ++ after))) ++ newline :: rest =
      before ++ (first ++ (between ++ (second ++ (after ++ newline :: rest)))) := by
    simp only [List.append_assoc]
  constructor
  · refine ⟨between ++ (second ++ after), ?_, ?_⟩
    · exact (List.suffix_append first _).trans (List.suffix_append before _)
    · rw [hassoc, hp0, List.append_assoc, List.append_assoc]
  · refine ⟨after, ?_, fun params => ?_⟩
    · exact (List.suffix_append second _).trans ((List.suffix_append between _).trans
        ((List.suffix_append first _).trans (List.suffix_append before _)))
    · rw [hassoc, scanInts_snd, hp0, if_neg (Option.some_ne_none _), hp1]

theorem TwoIntegers.lt_of_mem {line : List UInt8} (h : TwoIntegers line) :
    ∀ c ∈ line, c.toNat < 66 := by
  obtain ⟨before, first, between, second, after, rfl, hspace, -, hfirst, hsecond⟩ := h
  have hnumeral {word : List UInt8} (hw : Numeral word) : ∀ c ∈ word, c.toNat < 66 := by
    obtain ⟨sign, digits, rfl, hsign, -, hd⟩ := hw
    intro c hc
    rcases List.mem_append.mp hc with hc | hc
    · rcases hsign with rfl | rfl | rfl
      · exact absurd hc List.not_mem_nil
      · exact List.mem_singleton.mp hc ▸ (by decide)
      · exact List.mem_singleton.mp hc ▸ (by decide)
    · exact lt_of_isDigit (hd c hc)
  intro c hc
  simp only [List.mem_append] at hc hspace
  rcases hc with hc | hc | hc | hc | hc
  · exact lt_of_isSpace (hspace c (.inl hc))
  · exact hnumeral hfirst c hc
  · exact lt_of_isSpace (hspace c (.inr (.inl hc)))
  · exact hnumeral hsecond c hc
  · exact lt_of_isSpace (hspace c (.inr (.inr hc)))

theorem TwoIntegers.ne_nil {line : List UInt8} (h : TwoIntegers line) : line ≠ [] := by
  obtain ⟨before, first, between, second, after, rfl, -, hne, -, -⟩ := h
  intro h
  simp only [List.append_eq_nil_iff] at h
  exact hne h.2.2.1

/-- A scan that begins in front of such a line ends in it, if not before. -/
theorem unscanned_iff (u : List UInt8) :
    (∃ w, unscanned u = some w ∧ w <:+ u ∧
      ∀ params rest, (scanInts params (u ++ newline :: rest)).2 = w ++ newline :: rest) ∨
    unscanned u = none ∧ ∀ params line, TwoIntegers line → ∀ rest, ∃ gap, gap <:+ line ∧
      (scanInts params (u ++ newline :: (line ++ newline :: rest))).2 = gap ++ newline :: rest := by
  have hnil : (scanInt []).2 = [] := rfl
  have hnils (params : Params) : (scanInts params []).2 = [] := rfl
  rcases scanInts_line u with ⟨w, hw, hscan⟩ | hscan | hscan
  · refine .inl ⟨w, ?_, hw, hscan⟩
    rw [unscanned, hscan]
    cases w with
    | nil => rfl
    | cons c w =>
        show some (c :: (w ++ [newline])).dropLast = _
        rw [← List.cons_append, List.dropLast_concat]
  · refine .inr ⟨?_, fun params line h rest => ?_⟩
    · rw [unscanned, hscan, hnils]
    · obtain ⟨-, gap, hgap, hline⟩ := h.scanned rest
      exact ⟨gap, hgap, (hscan _ _).trans (hline params)⟩
  · refine .inr ⟨?_, fun params line h rest => ?_⟩
    · rw [unscanned, hscan, hnil]
    · obtain ⟨⟨gap, hgap, hline⟩, -⟩ := h.scanned rest
      exact ⟨gap, hgap, (hscan _ _).trans hline⟩

/-! ## What a scan uses up -/

theorem scanInt_used (input : List UInt8) :
    ∃ used, input = used ++ (scanInt input).2 ∧ ∀ c ∈ used, c.toNat < 66 := by
  have hsign (s : List UInt8) :
      ∃ used, s = used ++ (scanSign s).2 ∧ ∀ c ∈ used, c.toNat < 66 := by
    cases s with
    | nil => exact ⟨[], rfl, fun c hc => absurd hc List.not_mem_nil⟩
    | cons c s =>
        rw [scanSign]
        split
        · rename_i h
          exact ⟨[c], rfl, fun d hd => List.mem_singleton.mp hd ▸ h ▸ (by decide)⟩
        · split
          · rename_i h
            exact ⟨[c], rfl, fun d hd => List.mem_singleton.mp hd ▸ h ▸ (by decide)⟩
          · exact ⟨[], rfl, fun d hd => absurd hd List.not_mem_nil⟩
  have hdigits (s : List UInt8) :
      ∃ used, s = used ++ (scanDigits s).2 ∧ ∀ c ∈ used, c.toNat < 66 := by
    rw [scanDigits]
    split
    · exact ⟨[], rfl, fun d hd => absurd hd List.not_mem_nil⟩
    · exact ⟨s.takeWhile isDigit, List.takeWhile_append_dropWhile.symm,
        fun d hd => lt_of_isDigit (List.mem_takeWhile_imp hd)⟩
  obtain ⟨sign, hs, hslt⟩ := hsign (input.dropWhile isSpace)
  obtain ⟨digits, hd, hdlt⟩ := hdigits (scanSign (input.dropWhile isSpace)).2
  refine ⟨input.takeWhile isSpace ++ (sign ++ digits), ?_, fun c hc => ?_⟩
  · show input = _ ++ (scanDigits (scanSign (input.dropWhile isSpace)).2).2
    rw [List.append_assoc, List.append_assoc, ← hd, ← hs, List.takeWhile_append_dropWhile]
  · simp only [List.mem_append] at hc
    rcases hc with hc | hc | hc
    · exact lt_of_isSpace (List.mem_takeWhile_imp hc)
    · exact hslt c hc
    · exact hdlt c hc

theorem scanInts_used (params : Params) (input : List UInt8) :
    ∃ used, input = used ++ (scanInts params input).2 ∧ ∀ c ∈ used, c.toNat < 66 := by
  obtain ⟨used, hused, hlt⟩ := scanInt_used input
  rw [scanInts_snd]
  split
  · exact ⟨used, hused, hlt⟩
  · obtain ⟨used', hused', hlt'⟩ := scanInt_used (scanInt input).2
    refine ⟨used ++ used', ?_, fun c hc => (List.mem_append.mp hc).elim (hlt c) (hlt' c)⟩
    rw [List.append_assoc, ← hused', ← hused]

end Terminal

end Alex
