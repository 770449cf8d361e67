import Mathlib.Data.List.DropRight
import Mathlib.Tactic

/-!
# Text

The functions on text that the modelled code uses: `strip`, `splitlines` and
`int(text, base)`. Digits are those of ASCII.

* `intOfBase_of_digits`: a text of digits is read as its value.
-/

namespace Umcm

/-! ## Blanks and lines -/

/-- `c.isspace()`. -/
def isSpace (c : Char) : Bool :=
  let n := c.toNat
  (9 ≤ n && n ≤ 13) || (28 ≤ n && n ≤ 32) || n = 0x85 || n = 0xA0 || n = 0x1680 ||
    (0x2000 ≤ n && n ≤ 0x200A) || n = 0x2028 || n = 0x2029 || n = 0x202F || n = 0x205F || n = 0x3000

/-- Where `splitlines` ends a line. -/
def isLineBoundary (c : Char) : Bool :=
  let n := c.toNat
  (10 ≤ n && n ≤ 13) || (28 ≤ n && n ≤ 30) || n = 0x85 || n = 0x2028 || n = 0x2029

/-- `text.strip()`. -/
def strip (text : List Char) : List Char := (text.dropWhile isSpace).rdropWhile isSpace

/-- The lines of a text, of which the first one starts with `line`. -/
def splitLinesFrom (line : List Char) : List Char → List (List Char)
  | [] => if line = [] then [] else [line]
  | '\r' :: '\n' :: text => line :: splitLinesFrom [] text
  | c :: text =>
    if isLineBoundary c then line :: splitLinesFrom [] text else splitLinesFrom (line ++ [c]) text

/-- `text.splitlines()`. -/
def splitLines (text : List Char) : List (List Char) := splitLinesFrom [] text

/-- `'\n'.join(lines)`. -/
def joinLines (lines : List (List Char)) : List Char := ['\n'].intercalate lines

theorem mem_intercalate {sep : Char} {words : List (List Char)} {c : Char}
    (h : c ∈ [sep].intercalate words) : c = sep ∨ ∃ w ∈ words, c ∈ w := by
  induction words with
  | nil => cases h
  | cons w words ih =>
      rcases eq_or_ne words [] with rfl | hne
      · rw [List.intercalate_singleton] at h
        exact .inr ⟨w, List.mem_cons_self, h⟩
      · rw [List.intercalate_cons_of_ne_nil hne, List.append_assoc, List.mem_append,
          List.mem_append, List.mem_singleton] at h
        rcases h with h | h | h
        · exact .inr ⟨w, List.mem_cons_self, h⟩
        · exact .inl h
        · rcases ih h with h | ⟨w', hw', h⟩
          · exact .inl h
          · exact .inr ⟨w', List.mem_cons_of_mem _ hw', h⟩

theorem isSpace_of_isLineBoundary {c : Char} (h : isLineBoundary c = true) : isSpace c = true := by
  simp only [isLineBoundary, isSpace, Bool.or_eq_true, Bool.and_eq_true, decide_eq_true_eq] at h ⊢
  omega

theorem strip_of_not_space {text : List Char} (h : ∀ c ∈ text, isSpace c = false) :
    strip text = text := by
  rw [strip, List.dropWhile_eq_self_iff.mpr, List.rdropWhile_eq_self_iff.mpr]
  · intro hne
    simp [h _ (List.getLast_mem hne)]
  · intro hpos
    simp [h _ (List.getElem_mem hpos)]

theorem strip_of_ends {first last : Char} {text : List Char} (hfirst : isSpace first = false)
    (hlast : isSpace last = false) : strip (first :: text ++ [last]) = first :: text ++ [last] := by
  rw [strip, List.cons_append, List.dropWhile_cons_of_neg (by simp [hfirst]), ← List.cons_append,
    List.rdropWhile_concat_neg _ _ _ (by simp [hlast])]

theorem strip_concat_space {first last c : Char} {text : List Char} (hfirst : isSpace first = false)
    (hlast : isSpace last = false) (hc : isSpace c = true) :
    strip (first :: text ++ [last] ++ [c]) = first :: text ++ [last] := by
  rw [strip, List.cons_append, List.cons_append, List.dropWhile_cons_of_neg (by simp [hfirst]),
    ← List.cons_append, ← List.cons_append, List.rdropWhile_concat_pos _ _ _ hc,
    List.rdropWhile_concat_neg _ _ _ (by simp [hlast])]

/-- Newlines are the only line boundaries of the text. -/
def OnlyNewlines (text : List Char) : Prop := ∀ c ∈ text, isLineBoundary c = true → c = '\n'

theorem splitLinesFrom_newline (line text : List Char) :
    splitLinesFrom line ('\n' :: text) = line :: splitLinesFrom [] text := by
  rw [splitLinesFrom, if_pos (by decide)]
  simp

theorem splitLinesFrom_of_not {line text : List Char} {c : Char} (h : isLineBoundary c = false) :
    splitLinesFrom line (c :: text) = splitLinesFrom (line ++ [c]) text := by
  have hne : c ≠ '\r' := by
    rintro rfl
    exact absurd h (by decide)
  rw [splitLinesFrom, if_neg (by simp [h])]
  exact fun _ heq => absurd heq hne

/-- The lines of a text whose last character ends no line are joined to the text. -/
theorem joinLines_splitLinesFrom {line text : List Char} {last : Char}
    (hlines : OnlyNewlines text) (hlast : isLineBoundary last = false) :
    joinLines (splitLinesFrom line (text ++ [last])) = line ++ (text ++ [last]) := by
  induction text generalizing line with
  | nil =>
      rw [List.nil_append, splitLinesFrom_of_not hlast, splitLinesFrom, if_neg (by simp)]
      simp [joinLines]
  | cons c text ih =>
      have hrest : OnlyNewlines text := fun x hx => hlines x (List.mem_cons_of_mem _ hx)
      cases hc : isLineBoundary c with
      | false =>
          rw [List.cons_append, splitLinesFrom_of_not hc, ih hrest]
          simp
      | true =>
          obtain rfl := hlines c List.mem_cons_self hc
          have hnext := @ih [] hrest
          rw [List.cons_append, splitLinesFrom_newline]
          cases hsplit : splitLinesFrom [] (text ++ [last]) with
          | nil =>
              rw [hsplit] at hnext
              simp [joinLines] at hnext
          | cons next lines =>
              rw [hsplit] at hnext
              unfold joinLines at hnext ⊢
              rw [List.intercalate_cons_cons, hnext]
              simp

/-! ## Numbers -/

/-- The value of a digit; letters are digits above nine. -/
def digitOf (c : Char) : Option Nat :=
  if '0' ≤ c ∧ c ≤ '9' then some (c.toNat - 48)
  else if 'a' ≤ c ∧ c ≤ 'z' then some (c.toNat - 87)
  else if 'A' ≤ c ∧ c ≤ 'Z' then some (c.toNat - 55)
  else none

/-- The value of the digits behind a number. -/
def readDigits (base : Nat) : List Char → Nat → Option Nat
  | [], n => some n
  | c :: digits, n =>
    match digitOf c with
    | some d => if d < base then readDigits base digits (n * base + d) else none
    | none => none

/-- Digits, with single underscores between them. -/
def readNumeral (base : Nat) (text : List Char) : Option Nat :=
  let groups := text.splitOn '_'
  if groups.any List.isEmpty then none else readDigits base groups.flatten 0

def dropUnderscore : List Char → List Char
  | '_' :: digits => digits
  | digits => digits

/-- The text behind the prefix of the base, and behind one underscore after it. -/
def dropBasePrefix (base : Nat) : List Char → List Char
  | '0' :: c :: text =>
    if (base = 16 ∧ (c = 'x' ∨ c = 'X')) ∨ (base = 2 ∧ (c = 'b' ∨ c = 'B')) then
      dropUnderscore text
    else '0' :: c :: text
  | text => text

/-- `int(text, base)`. -/
def intOfBase (base : Nat) (text : String) : Option Int :=
  match strip text.toList with
  | '-' :: digits => (readNumeral base (dropBasePrefix base digits)).map (fun n => -(n : Int))
  | '+' :: digits => (readNumeral base (dropBasePrefix base digits)).map Int.ofNat
  | digits => (readNumeral base (dropBasePrefix base digits)).map Int.ofNat

section Digits

variable {base n : Nat} {text : List Char}

theorem digitOf_of_readDigits {m : Nat} (h : readDigits base text m = some n) :
    ∀ c ∈ text, ∃ d < base, digitOf c = some d := by
  induction text generalizing m with
  | nil => simp
  | cons c text ih =>
      rw [readDigits] at h
      cases hc : digitOf c with
      | none =>
          rw [hc] at h
          cases h
      | some d =>
          rw [hc] at h
          dsimp only at h
          split_ifs at h with hd
          intro x hx
          rcases List.mem_cons.mp hx with rfl | hx
          · exact ⟨d, hd, hc⟩
          · exact ih h x hx

theorem readDigits_append {text' : List Char} {m : Nat} :
    readDigits base (text ++ text') m = (readDigits base text m).bind (readDigits base text') := by
  induction text generalizing m with
  | nil => rfl
  | cons c text ih =>
      rw [List.cons_append, readDigits, readDigits]
      cases digitOf c with
      | none => rfl
      | some d =>
          dsimp only
          split_ifs with hd
          · exact ih
          · rfl

theorem readDigits_singleton {c : Char} {d m : Nat} (hc : digitOf c = some d) (hd : d < base) :
    readDigits base [c] m = some (m * base + d) := by
  rw [readDigits, hc]
  dsimp only
  rw [if_pos hd, readDigits]

theorem digitOf_digitChar {d : Nat} (h : d < 16) : digitOf d.digitChar = some d := by
  revert d
  decide

/-- The digits that print a number are read as the number. -/
theorem readDigits_toDigits (hbase : 1 < base) (hle : base ≤ 16) (n : Nat) :
    readDigits base (Nat.toDigits base n) 0 = some n := by
  induction n using Nat.strong_induction_on with
  | _ n ih =>
      rcases Nat.lt_or_ge n base with hlt | hge
      · rw [Nat.toDigits_of_lt_base hlt,
          readDigits_singleton (digitOf_digitChar (by omega)) hlt, Nat.zero_mul, Nat.zero_add]
      · have hmod : n % base < base := Nat.mod_lt n (by omega)
        rw [Nat.toDigits_of_base_le hbase hge, readDigits_append,
          ih (n / base) (Nat.div_lt_self (by omega) hbase), Option.bind_some,
          readDigits_singleton (digitOf_digitChar (by omega)) hmod, Nat.div_add_mod']

theorem readDigits_replicate_zero (hbase : 0 < base) (k : Nat) :
    readDigits base (List.replicate k '0') 0 = some 0 := by
  induction k with
  | zero => rfl
  | succ k ih =>
      rw [List.replicate_succ, readDigits]
      have hzero : digitOf '0' = some 0 := by decide
      simp only [hzero, if_pos hbase, Nat.zero_mul, Nat.zero_add, ih]

/-- Zeros in front of the digits do not change the number. -/
theorem readDigits_leftpad (hbase : 1 < base) (hle : base ≤ 16) (k n : Nat) :
    readDigits base ((Nat.toDigits base n).leftpad k '0') 0 = some n := by
  rw [List.leftpad, readDigits_append, readDigits_replicate_zero (by omega), Option.bind_some,
    readDigits_toDigits hbase hle]

theorem readNumeral_of_digits (hne : text ≠ []) (h : readDigits base text 0 = some n) :
    readNumeral base text = some n := by
  have hplain : '_' ∉ text := by
    intro hmem
    obtain ⟨d, -, hd⟩ := digitOf_of_readDigits h '_' hmem
    simp [digitOf] at hd
  have hgroups : text.splitOn '_' = [text] := by
    have hsplit : (['_'].intercalate [text]).splitOn '_' = [text] :=
      List.splitOn_intercalate '_' (by simpa using hplain) (by simp)
    rwa [List.intercalate_singleton] at hsplit
  rw [readNumeral, hgroups]
  simp [hne, h]

/-- A letter of a base prefix is no digit of the base. -/
theorem dropBasePrefix_of_digits (h : readDigits base text 0 = some n) :
    dropBasePrefix base text = text := by
  have hdigits := digitOf_of_readDigits h
  rcases text with _ | ⟨first, _ | ⟨c, text⟩⟩
  · rfl
  · rw [dropBasePrefix]
    simp
  · by_cases hzero : first = '0'
    · subst hzero
      obtain ⟨d, hd, hc⟩ := hdigits c (by simp)
      rw [dropBasePrefix, if_neg]
      rintro (⟨hbase, rfl | rfl⟩ | ⟨hbase, rfl | rfl⟩)
      all_goals
        simp [digitOf] at hc
        omega
    · rw [dropBasePrefix]
      intro c' text' heq
      exact hzero (List.cons.inj heq).1

theorem isSpace_of_digitOf {c : Char} {d : Nat} (h : digitOf c = some d) : isSpace c = false := by
  have hrange : 48 ≤ c.toNat ∧ c.toNat ≤ 122 := by
    unfold digitOf at h
    simp only [Char.le_def, UInt32.le_iff_toNat_le] at h
    split_ifs at h with h0 ha hA
    · exact ⟨h0.1, le_trans h0.2 (by decide)⟩
    · exact ⟨le_trans (by decide) ha.1, ha.2⟩
    · exact ⟨le_trans (by decide) hA.1, le_trans hA.2 (by decide)⟩
  simp only [isSpace, Bool.or_eq_false_iff, Bool.and_eq_false_iff, decide_eq_false_iff_not]
  omega

/-- A text of digits is read as its value. -/
theorem intOfBase_of_digits (hne : text ≠ []) (h : readDigits base text 0 = some n) :
    intOfBase base (String.ofList text) = some (n : Int) := by
  have hdigits := digitOf_of_readDigits h
  have hstrip : strip (String.ofList text).toList = text := by
    rw [String.toList_ofList]
    refine strip_of_not_space ?_
    intro c hc
    obtain ⟨d, -, hd⟩ := hdigits c hc
    exact isSpace_of_digitOf hd
  have hsign : ∀ c : Char, digitOf c = none → ∀ rest, text ≠ c :: rest := by
    rintro c hc rest rfl
    obtain ⟨d, -, hd⟩ := hdigits c List.mem_cons_self
    rw [hc] at hd
    cases hd
  unfold intOfBase
  rw [hstrip]
  split
  · exact absurd rfl (hsign '-' (by decide) _)
  · exact absurd rfl (hsign '+' (by decide) _)
  · rw [dropBasePrefix_of_digits h, readNumeral_of_digits hne h]
    rfl

/-- Different numbers are printed by different texts. -/
theorem toDigits_injective {m : Nat} (h : Nat.toDigits 10 m = Nat.toDigits 10 n) : m = n := by
  have hm := readDigits_toDigits (by decide : 1 < 10) (by decide) m
  rw [h, readDigits_toDigits (by decide) (by decide), Option.some.injEq] at hm
  exact hm.symm

end Digits

/-! ## Texts with holes -/

section Fill

variable {α : Type*} {text text' : List α} {parts : List (Option (List α))}

/-- The parts of a text, with the same text in each of its holes. -/
def fill (parts : List (Option (List α))) (text : List α) : List α :=
  parts.flatMap (fun part => part.getD text)

theorem fill_cons {part : Option (List α)} :
    fill (part :: parts) text = part.getD text ++ fill parts text := by
  rw [fill, List.flatMap_cons]
  rfl

theorem length_fill : (fill parts text).length =
    (fill parts []).length + parts.countP Option.isNone * text.length := by
  induction parts with
  | nil => simp [fill]
  | cons part parts ih =>
      rw [fill_cons, fill_cons, List.length_append, List.length_append, ih, List.countP_cons]
      cases part with
      | none =>
          simp only [Option.getD_none, Option.isNone_none, List.length_nil, if_true]
          ring
      | some t =>
          simp only [Option.getD_some, Option.isNone_some]
          rw [if_neg Bool.false_ne_true]
          ring

/-- A text with a hole says what the hole was filled with. -/
theorem fill_injective (hhole : none ∈ parts) (h : fill parts text = fill parts text') :
    text = text' := by
  have hlen : text.length = text'.length := by
    have hcount : 0 < parts.countP Option.isNone :=
      List.countP_pos_iff.mpr ⟨none, hhole, rfl⟩
    have heq := congrArg List.length h
    have hfill' : (fill parts text').length = _ := length_fill
    rw [length_fill, hfill', Nat.add_left_cancel_iff] at heq
    exact Nat.eq_of_mul_eq_mul_left hcount heq
  induction parts with
  | nil => cases hhole
  | cons part parts ih =>
      rw [fill_cons, fill_cons] at h
      cases part with
      | none => exact (List.append_inj h hlen).1
      | some t =>
          rcases List.mem_cons.mp hhole with heq | hhole
          · cases heq
          · exact ih hhole (List.append_cancel_left h)

end Fill

end Umcm
