import Entitlements.Json.Parser
import Entitlements.Json.Printer
import Entitlements.Proofs.Text.Utf8
import Mathlib.Data.List.TakeWhile

/-! # Values and their text

The text of a value is read as that value again (`Json.parse?_render`). This holds of values that
fit (`Json.Fits`): they have no more than `maxDepth` containers within each other, nothing in them
is unreadable, and every decimal in them is read as itself. The reading of decimals is not exact, so
that this has to be asked of each (`Json.ReadAsItself`); whole numbers are always read as
themselves. The proof goes by the room for containers: what is in a container fits into the room
that is left. -/

namespace Entitlements.Json

/-- Whether a double is what its text is read as. -/
def ReadAsItself (bits : UInt64) : Prop :=
  number? (Double.text bits).toList = some (.float bits, [])

instance : DecidablePred ReadAsItself := fun _ => inferInstanceAs (Decidable (_ = _))

/-- Whether a value is written and read exactly when there is room for that many containers within
each other. -/
def Fits : (room : Nat) → Json → Prop
  | _, .null | _, .bool _ | _, .str _ => True
  | _, .int n => -(Nat.pow 2 63 : Nat) ≤ n ∧ n < (Nat.pow 2 64 : Nat)
  | _, .float bits => ReadAsItself bits
  | _, .unreadable => False
  | 0, .arr _ | 0, .obj _ => False
  | room + 1, .arr items => ∀ j ∈ items, Fits room j
  | room + 1, .obj entries => ∀ e ∈ entries, Fits room e.2

section Fits
variable {room : Nat}

@[simp] theorem fits_null : Fits room .null := by cases room <;> trivial

@[simp] theorem fits_bool (b : Bool) : Fits room (.bool b) := by cases room <;> trivial

@[simp] theorem fits_str (s : String) : Fits room (.str s) := by cases room <;> trivial

@[simp] theorem fits_int {n : Int} :
    Fits room (.int n) ↔ -(Nat.pow 2 63 : Nat) ≤ n ∧ n < (Nat.pow 2 64 : Nat) := by
  cases room <;> rfl

@[simp] theorem fits_float {bits : UInt64} : Fits room (.float bits) ↔ ReadAsItself bits := by
  cases room <;> rfl

@[simp] theorem not_fits_unreadable : ¬ Fits room .unreadable := by cases room <;> exact id

@[simp] theorem not_fits_zero_arr (items : List Json) : ¬ Fits 0 (.arr items) := id

@[simp] theorem not_fits_zero_obj (entries : List (String × Json)) : ¬ Fits 0 (.obj entries) := id

@[simp] theorem fits_succ_arr {items : List Json} :
    Fits (room + 1) (.arr items) ↔ ∀ j ∈ items, Fits room j := Iff.rfl

@[simp] theorem fits_succ_obj {entries : List (String × Json)} :
    Fits (room + 1) (.obj entries) ↔ ∀ e ∈ entries, Fits room e.2 := Iff.rfl

end Fits

/-! ### Strings -/

/-- **How a character is written** inside a string: by letter, by number, or as it is. -/
theorem escapeChar_cases (c : Char) :
    (∃ l, escapeChar c = ['\\', l] ∧ l ≠ 'u' ∧ escaped? l = some c) ∨
    (c.toNat < 32 ∧ escapeChar c =
      ['\\', 'u', '0', '0', hexDigit (c.toNat / 16), hexDigit (c.toNat % 16)]) ∨
    (c ≠ '"' ∧ c ≠ '\\' ∧ 32 ≤ c.toNat ∧ escapeChar c = [c]) := by
  by_cases hletter : c = '"' ∨ c = '\\' ∨ c = '\x08' ∨ c = '\x0c' ∨ c = '\n' ∨ c = '\r' ∨ c = '\t'
  · left
    rcases hletter with rfl | rfl | rfl | rfl | rfl | rfl | rfl <;>
      exact ⟨_, rfl, by decide, by decide⟩
  · right
    simp only [not_or] at hletter
    obtain ⟨h1, h2, h3, h4, h5, h6, h7⟩ := hletter
    by_cases hlow : c.toNat < 32
    · exact .inl ⟨hlow, by simp [escapeChar, h1, h2, h3, h4, h5, h6, h7, hlow]⟩
    · exact .inr ⟨h1, h2, by omega, by simp [escapeChar, h1, h2, h3, h4, h5, h6, h7, hlow]⟩

theorem hexNumber?_hexDigit : ∀ n < 32,
    hexNumber? '0' '0' (hexDigit (n / 16)) (hexDigit (n % 16)) = some n := by decide +kernel

/-- Each character of a string is read from how it is written. -/
theorem scanString_escapeChar_append (c : Char) {cs rest : List Char} {pieces : List Piece}
    (h : scanString cs = some (pieces, rest)) :
    scanString (escapeChar c ++ cs) = some (.char c :: pieces, rest) := by
  rcases escapeChar_cases c with ⟨l, hc, hl, hescaped⟩ | ⟨hlow, hc⟩ | ⟨hquote, hslash, hhigh, hc⟩
  · rw [hc]
    show scanString ('\\' :: l :: cs) = _
    rw [scanString]
    · simp [hescaped, h]
    · rintro a b c d cs rfl; exact absurd rfl hl
  · rw [hc]
    have hpiece : pieceOfUnit c.toNat = .char c := by
      unfold pieceOfUnit
      rw [if_neg (by simp; omega), Char.ofNat_toNat]
    show scanString ('\\' :: 'u' :: '0' :: '0' :: _ :: _ :: cs) = _
    rw [scanString, hexNumber?_hexDigit _ hlow]
    simp [h, hpiece]
  · rw [hc]
    show scanString (c :: cs) = _
    rw [scanString]
    · simp [h, Nat.not_lt.mpr hhigh]
    · exact hquote
    · rintro a b d e ds rfl; exact absurd rfl hslash
    · rintro d ds rfl; exact absurd rfl hslash

theorem scanString_flatMap (cs rest : List Char) :
    scanString (cs.flatMap escapeChar ++ '"' :: rest) = some (cs.map .char, rest) := by
  induction cs with
  | nil => rfl
  | cons c cs ih =>
    rw [List.flatMap_cons, List.append_assoc]
    exact scanString_escapeChar_append c ih

theorem joinPieces?_map_char : ∀ cs : List Char, joinPieces? (cs.map .char) = some cs
  | [] => rfl
  | c :: cs => by
    rw [List.map_cons, joinPieces?, joinPieces?_map_char cs]
    rfl

/-- A string is read behind its opening quote. -/
theorem string?_escaped (s : String) (rest : List Char) :
    string? (s.toList.flatMap escapeChar ++ '"' :: rest) = some (some s, rest) := by
  unfold string?
  rw [scanString_flatMap]
  simp [joinPieces?_map_char]

/-! ### Numbers -/

/-- What stands behind a value: nothing, or what separates or closes. -/
def EndsValue (rest : List Char) : Prop :=
  rest = [] ∨ ∃ c cs, rest = c :: cs ∧ (c = ',' ∨ c = ']' ∨ c = '\x7d')

theorem wholePart?_cons {c : Char} (hc : c ≠ '0') (cs : List Char) :
    wholePart? (c :: cs) = digits? (c :: cs) := by
  rw [wholePart?]
  rintro _ heq
  exact hc (List.cons.inj heq).1

theorem fractionPart?_cons {c : Char} (hc : c ≠ '.') (cs : List Char) :
    fractionPart? (c :: cs) = some ([], c :: cs) := by
  rw [fractionPart?]
  rintro _ heq
  exact hc (List.cons.inj heq).1

theorem takeSign_cons {c : Char} (hminus : c ≠ '-') (hplus : c ≠ '+') (cs : List Char) :
    takeSign (c :: cs) = (false, c :: cs) := by
  rw [takeSign]
  · rintro _ heq
    exact hminus (List.cons.inj heq).1
  · rintro _ heq
    exact hplus (List.cons.inj heq).1

theorem exponentPart?_cons {c : Char} (hc : c = 'e' ∨ c = 'E') (cs : List Char) :
    exponentPart? (c :: cs) = (digits? (takeSign cs).2).map fun (ds, rest) =>
      (some (if (takeSign cs).1 then -(natOfDigits ds : Int) else natOfDigits ds), rest) :=
  if_pos (by simpa using hc)

theorem exponentPart?_cons_of_ne {c : Char} (hc : ¬ (c = 'e' ∨ c = 'E')) (cs : List Char) :
    exponentPart? (c :: cs) = some (none, c :: cs) :=
  if_neg (by simpa using hc)

theorem number?_cons {c : Char} (hc : c ≠ '-') (cs : List Char) :
    number? (c :: cs) = unsigned? false (c :: cs) := by
  rw [number?]
  rintro _ heq
  exact hc (List.cons.inj heq).1

/-- A number starts with a digit or a minus. -/
theorem exists_cons_of_number? {cs cs' : List Char} {j : Json} (h : number? cs = some (j, cs')) :
    ∃ c xs, cs = c :: xs ∧ (c.isDigit = true ∨ c = '-') := by
  rcases cs with _ | ⟨c, cs⟩
  · cases h
  · refine ⟨c, cs, rfl, ?_⟩
    by_cases hc : c = '-'
    · exact .inr hc
    · rw [number?_cons hc] at h
      obtain ⟨_, hwhole, -⟩ := Option.bind_eq_some_iff.mp h
      by_cases hzero : c = '0'
      · exact .inl (by rw [hzero]; rfl)
      · cases hdigit : c.isDigit with
        | true => exact .inl rfl
        | false =>
          rw [wholePart?_cons hzero, digits?, takeDigits,
            List.takeWhile_cons_of_neg (by simp [hdigit])] at hwhole
          cases hwhole

section EndsValue
variable {rest : List Char} (hrest : EndsValue rest)
include hrest

/-! Each part of a number is taken up to where it ends, whatever stands behind the value. -/

theorem takeDigits_append_of_endsValue : ∀ cs : List Char,
    takeDigits (cs ++ rest) = ((takeDigits cs).1, (takeDigits cs).2 ++ rest)
  | [] => by rcases hrest with rfl | ⟨c, cs, rfl, rfl | rfl | rfl⟩ <;> rfl
  | c :: cs => by
    have ih := takeDigits_append_of_endsValue cs
    unfold takeDigits at ih ⊢
    rw [List.cons_append, List.takeWhile_cons, List.dropWhile_cons, List.takeWhile_cons,
      List.dropWhile_cons]
    split
    · rw [(Prod.mk.inj ih).1, (Prod.mk.inj ih).2]
    · rfl

theorem digits?_append {cs ds cs' : List Char} (h : digits? cs = some (ds, cs')) :
    digits? (cs ++ rest) = some (ds, cs' ++ rest) := by
  unfold digits? at h ⊢
  rw [takeDigits_append_of_endsValue hrest]
  generalize takeDigits cs = taken at h ⊢
  obtain ⟨_ | ⟨d, ds⟩, xs⟩ := taken
  · cases h
  · cases h
    rfl

theorem wholePart?_append : ∀ {cs ds cs' : List Char}, wholePart? cs = some (ds, cs') →
    wholePart? (cs ++ rest) = some (ds, cs' ++ rest)
  | [], _, _, h => by cases h
  | c :: cs, _, _, h => by
    by_cases hc : c = '0'
    · subst hc
      cases h
      rfl
    · rw [wholePart?_cons hc] at h
      rw [List.cons_append, wholePart?_cons hc]
      exact digits?_append hrest h

theorem fractionPart?_append : ∀ {cs ds cs' : List Char}, fractionPart? cs = some (ds, cs') →
    fractionPart? (cs ++ rest) = some (ds, cs' ++ rest)
  | [], _, _, h => by
    cases h
    rcases hrest with rfl | ⟨c, cs, rfl, rfl | rfl | rfl⟩ <;> rfl
  | c :: cs, _, _, h => by
    by_cases hc : c = '.'
    · subst hc
      exact digits?_append hrest h
    · rw [fractionPart?_cons hc] at h
      cases h
      exact fractionPart?_cons hc (cs ++ rest)

theorem takeSign_append : ∀ cs : List Char,
    takeSign (cs ++ rest) = ((takeSign cs).1, (takeSign cs).2 ++ rest)
  | [] => by rcases hrest with rfl | ⟨c, cs, rfl, rfl | rfl | rfl⟩ <;> rfl
  | c :: cs => by
    by_cases hminus : c = '-'
    · rw [hminus]
      rfl
    · by_cases hplus : c = '+'
      · rw [hplus]
        rfl
      · rw [List.cons_append, takeSign_cons hminus hplus, takeSign_cons hminus hplus]
        rfl

theorem exponentPart?_append : ∀ {cs cs' : List Char} {exponent : Option Int},
    exponentPart? cs = some (exponent, cs') →
      exponentPart? (cs ++ rest) = some (exponent, cs' ++ rest)
  | [], _, _, h => by
    cases h
    rcases hrest with rfl | ⟨c, cs, rfl, rfl | rfl | rfl⟩ <;> rfl
  | c :: cs, _, _, h => by
    by_cases hc : c = 'e' ∨ c = 'E'
    · rw [exponentPart?_cons hc] at h
      obtain ⟨_, hdigits, heq⟩ := Option.map_eq_some_iff.mp h
      cases heq
      rw [List.cons_append, exponentPart?_cons hc, takeSign_append hrest,
        digits?_append hrest hdigits]
      rfl
    · rw [exponentPart?_cons_of_ne hc] at h
      cases h
      exact exponentPart?_cons_of_ne hc (cs ++ rest)

theorem unsigned?_append {negative : Bool} {cs cs' : List Char} {j : Json}
    (h : unsigned? negative cs = some (j, cs')) :
    unsigned? negative (cs ++ rest) = some (j, cs' ++ rest) := by
  obtain ⟨_, hwhole, h⟩ := Option.bind_eq_some_iff.mp h
  obtain ⟨_, hfraction, h⟩ := Option.bind_eq_some_iff.mp h
  obtain ⟨_, hexponent, h⟩ := Option.bind_eq_some_iff.mp h
  cases h
  refine Option.bind_eq_some_iff.mpr ⟨_, wholePart?_append hrest hwhole, ?_⟩
  refine Option.bind_eq_some_iff.mpr ⟨_, fractionPart?_append hrest hfraction, ?_⟩
  exact Option.bind_eq_some_iff.mpr ⟨_, exponentPart?_append hrest hexponent, rfl⟩

/-- **A number is read up to where it ends.** -/
theorem number?_append {cs cs' : List Char} {j : Json} (h : number? cs = some (j, cs')) :
    number? (cs ++ rest) = some (j, cs' ++ rest) := by
  rcases cs with _ | ⟨c, cs⟩
  · cases h
  · by_cases hc : c = '-'
    · subst hc
      exact unsigned?_append hrest h
    · rw [number?_cons hc] at h
      rw [List.cons_append, number?_cons hc]
      exact unsigned?_append hrest h

end EndsValue

/-! ### Whole numbers -/

theorem takeDigits_toDigits (n : Nat) :
    takeDigits (Nat.toDigits 10 n) = (Nat.toDigits 10 n, []) := by
  have hdigits : ∀ c ∈ Nat.toDigits 10 n, c.isDigit = true := fun c hc =>
    Nat.isDigit_of_mem_toDigits (by decide) (by decide) hc
  rw [takeDigits, List.takeWhile_eq_self_iff.mpr hdigits, List.dropWhile_eq_nil_iff.mpr hdigits]

/-- Only zero is written with a zero in front. -/
theorem exists_toDigits_cons (n : Nat) :
    ∃ c cs, Nat.toDigits 10 n = c :: cs ∧ c.isDigit = true ∧ (c = '0' → n = 0) := by
  induction n using Nat.strongRecOn with
  | ind n ih =>
    rcases Nat.lt_or_ge n 10 with hlt | hge
    · have hdigits : ∀ m < 10, m.digitChar.isDigit = true ∧ (m.digitChar = '0' → m = 0) := by
        decide
      exact ⟨n.digitChar, [], Nat.toDigits_of_lt_base hlt, hdigits n hlt⟩
    · obtain ⟨c, cs, hcs, hdigit, hzero⟩ := ih (n / 10) (by omega)
      refine ⟨c, cs ++ [(n % 10).digitChar], ?_, hdigit, fun hc => ?_⟩
      · rw [Nat.toDigits_of_base_le (by decide) hge, hcs, List.cons_append]
      · have := hzero hc
        omega

theorem wholePart?_toDigits (n : Nat) :
    wholePart? (Nat.toDigits 10 n) = some (Nat.toDigits 10 n, []) := by
  obtain ⟨c, cs, hcs, -, hzero⟩ := exists_toDigits_cons n
  by_cases hc : c = '0'
  · rw [hzero hc]
    rfl
  · have htake := takeDigits_toDigits n
    rw [hcs] at htake ⊢
    rw [wholePart?_cons hc, digits?, htake]

theorem unsigned?_toDigits (negative : Bool) (n : Nat) :
    unsigned? negative (Nat.toDigits 10 n) =
      some (numberValue negative (Nat.toDigits 10 n) [] none, []) :=
  Option.bind_eq_some_iff.mpr ⟨_, wholePart?_toDigits n, rfl⟩

theorem number?_natural {n : Nat} (hn : n < Nat.pow 2 64) :
    number? (Nat.toDigits 10 n) = some (.int n, []) := by
  obtain ⟨c, cs, hcs, hdigit, -⟩ := exists_toDigits_cons n
  have hminus : c ≠ '-' := by rintro rfl; exact absurd hdigit (by decide)
  have hvalue : numberValue false (Nat.toDigits 10 n) [] none = .int n := by
    rw [numberValue, natOfDigits_toDigits]
    exact if_pos (decide_eq_true hn)
  have hread := unsigned?_toDigits false n
  rw [hvalue, hcs, ← number?_cons hminus, ← hcs] at hread
  exact hread

theorem number?_negative {n : Nat} (hpos : n ≠ 0) (hn : n ≤ Nat.pow 2 63) :
    number? ('-' :: Nat.toDigits 10 n) = some (.int (-n), []) := by
  have hvalue : numberValue true (Nat.toDigits 10 n) [] none = .int (-n) := by
    have hfits : (n != 0 && decide (n ≤ Nat.pow 2 63)) = true := by
      rw [Bool.and_eq_true]
      exact ⟨bne_iff_ne.mpr hpos, decide_eq_true hn⟩
    rw [numberValue, natOfDigits_toDigits]
    exact if_pos hfits
  rw [number?, unsigned?_toDigits, hvalue]

/-- How a whole number is written. -/
theorem toList_toString_cases (n : Int) :
    (∃ m : Nat, n = m ∧ (toString n).toList = Nat.toDigits 10 m) ∨
    ∃ m : Nat, m ≠ 0 ∧ n = -m ∧ (toString n).toList = '-' :: Nat.toDigits 10 m := by
  cases n with
  | ofNat m => exact .inl ⟨m, rfl, Nat.toList_repr⟩
  | negSucc m =>
    refine .inr ⟨m + 1, Nat.succ_ne_zero m, Int.negSucc_eq m, ?_⟩
    show ("-" ++ (m + 1).repr).toList = _
    rw [String.toList_append, Nat.toList_repr]
    rfl

theorem number?_toString {n : Int} (hlow : -(Nat.pow 2 63 : Nat) ≤ n)
    (hhigh : n < (Nat.pow 2 64 : Nat)) : number? (toString n).toList = some (.int n, []) := by
  rcases toList_toString_cases n with ⟨m, rfl, hm⟩ | ⟨m, hpos, rfl, hm⟩
  · rw [hm]
    exact number?_natural (Int.ofNat_lt.mp hhigh)
  · rw [hm]
    exact number?_negative hpos (Int.ofNat_le.mp (Int.neg_le_neg_iff.mp hlow))

/-! ### Values -/

/-- A number starts unlike every other value. -/
theorem numberStart_ne {c : Char} (h : c.isDigit = true ∨ c = '-') :
    isSpace c = false ∧ c ≠ ']' ∧ c ≠ '"' ∧ c ≠ '[' ∧ c ≠ '\x7b' ∧ c ≠ 'n' ∧ c ≠ 't' ∧ c ≠ 'f' := by
  have hne : ∀ d : Char, d.isDigit = false → d ≠ '-' → c ≠ d := by
    rintro d hdigit hminus rfl
    rcases h with h | h
    · exact absurd (hdigit.symm.trans h) (by decide)
    · exact hminus h
  refine ⟨?_, hne _ rfl (by decide), hne _ rfl (by decide), hne _ rfl (by decide),
    hne _ rfl (by decide), hne _ rfl (by decide), hne _ rfl (by decide), hne _ rfl (by decide)⟩
  simp [isSpace, hne ' ' rfl (by decide), hne '\n' rfl (by decide), hne '\t' rfl (by decide),
    hne '\r' rfl (by decide)]

theorem value?_number {c : Char} (h : c.isDigit = true ∨ c = '-') (fuel room : Nat)
    (cs : List Char) : value? (fuel + 1) room (c :: cs) = number? (c :: cs) := by
  obtain ⟨-, -, hquote, hbracket, hbrace, hn, ht, hf⟩ := numberStart_ne h
  rw [value?]
  · simp [hn, ht, hf]
  · exact hquote
  · exact hbracket
  · exact hbrace

/-- No value starts with a blank, or as an array ends. -/
theorem exists_renderChars_cons {room : Nat} {j : Json} (h : Fits room j) :
    ∃ c cs, renderChars j = c :: cs ∧ isSpace c = false ∧ c ≠ ']' := by
  have hnumber : ∀ {cs : List Char} {j : Json}, number? cs = some (j, []) →
      ∃ c xs, cs = c :: xs ∧ isSpace c = false ∧ c ≠ ']' := fun h => by
    obtain ⟨c, xs, rfl, hc⟩ := exists_cons_of_number? h
    exact ⟨c, xs, rfl, (numberStart_ne hc).1, (numberStart_ne hc).2.1⟩
  cases j with
  | null => exact ⟨_, _, rfl, by decide⟩
  | bool b => cases b <;> exact ⟨_, _, rfl, by decide⟩
  | int n => exact hnumber (number?_toString (fits_int.mp h).1 (fits_int.mp h).2)
  | float bits => exact hnumber (fits_float.mp h)
  | str s => exact ⟨_, _, rfl, by decide⟩
  | arr items => cases items <;> exact ⟨_, _, rfl, by decide⟩
  | obj entries => rcases entries with _ | ⟨⟨k, j⟩, es⟩ <;> exact ⟨_, _, rfl, by decide⟩
  | unreadable => exact absurd h not_fits_unreadable

/-- The value is read from its text when there is room for that many containers. -/
def ReadsBack (room : Nat) (j : Json) : Prop :=
  ∀ fuel rest, (renderChars j).length ≤ fuel → EndsValue rest →
    value? fuel room (renderChars j ++ rest) = some (j, rest)

/-- A number is read from its text. -/
theorem value?_of_number? {cs rest : List Char} {j : Json} (h : number? cs = some (j, []))
    (hrest : EndsValue rest) (fuel room : Nat) :
    value? (fuel + 1) room (cs ++ rest) = some (j, rest) := by
  have hread := number?_append hrest h
  obtain ⟨c, xs, rfl, hc⟩ := exists_cons_of_number? h
  rw [List.cons_append] at hread ⊢
  rw [value?_number hc, hread, List.nil_append]

theorem endsValue_renderItems (js : List Json) (rest : List Char) :
    EndsValue (renderItems js ++ rest) := by
  cases js with
  | nil => exact .inr ⟨']', rest, rfl, by simp⟩
  | cons j js => exact .inr ⟨',', _, rfl, by simp⟩

theorem endsValue_renderEntries (es : List (String × Json)) (rest : List Char) :
    EndsValue (renderEntries es ++ rest) := by
  rcases es with _ | ⟨⟨k, j⟩, es⟩
  · exact .inr ⟨'\x7d', rest, rfl, by simp⟩
  · exact .inr ⟨',', _, rfl, by simp⟩

theorem skipSpaces_cons {c : Char} (h : isSpace c = false) (cs : List Char) :
    skipSpaces (c :: cs) = c :: cs := by
  rw [skipSpaces, List.dropWhile_cons_of_neg (by simp [h])]

theorem skipSpaces_renderChars {room : Nat} {j : Json} (h : Fits room j) (rest : List Char) :
    skipSpaces (renderChars j ++ rest) = renderChars j ++ rest := by
  obtain ⟨c, cs, hcs, hspace, -⟩ := exists_renderChars_cons h
  rw [hcs, List.cons_append, skipSpaces_cons hspace]

/-- The items of an array are read when each of them is. -/
theorem items?_render {room : Nat} (js : List Json) : ∀ (j : Json) (fuel : Nat) (rest : List Char),
    (∀ x ∈ j :: js, Fits room x ∧ ReadsBack room x) →
    (renderChars j).length + (renderItems js).length ≤ fuel →
    items? fuel room (renderChars j ++ (renderItems js ++ rest)) = some (j :: js, rest) := by
  induction js with
  | nil =>
    intro j fuel rest h hfuel
    rw [renderItems, List.length_singleton] at hfuel
    obtain ⟨fuel, rfl⟩ := Nat.exists_eq_add_of_le' (Nat.le_of_add_left_le hfuel)
    have hread := (h j (by simp)).2 fuel _ (by omega) (endsValue_renderItems [] rest)
    rw [items?, hread]
    rfl
  | cons x js ih =>
    intro j fuel rest h hfuel
    rw [renderItems, List.length_cons, List.length_append] at hfuel
    obtain ⟨fuel, rfl⟩ := Nat.exists_eq_add_of_le' (m := 1) (n := fuel) (by omega)
    have hread := (h j (by simp)).2 fuel _ (by omega) (endsValue_renderItems (x :: js) rest)
    have hfits := (h x (by simp)).1
    have htail := ih x fuel rest (fun y hy => h y (List.mem_cons_of_mem j hy)) (by omega)
    rw [items?, hread]
    simp [renderItems, skipSpaces_cons, isSpace, skipSpaces_renderChars hfits, htail]

theorem renderString_append (s : String) (rest : List Char) :
    renderString s ++ rest = '"' :: (s.toList.flatMap escapeChar ++ '"' :: rest) := by
  simp [renderString]

/-- The entries of an object are read when the value of each of them is. -/
theorem entries?_render {room : Nat} (es : List (String × Json)) :
    ∀ (k : String) (j : Json) (fuel : Nat) (rest : List Char),
    (∀ e ∈ (k, j) :: es, Fits room e.2 ∧ ReadsBack room e.2) →
    (renderChars j).length + (renderEntries es).length ≤ fuel →
    entries? fuel room (renderString k ++ ':' :: (renderChars j ++ (renderEntries es ++ rest))) =
      some (((k, j) :: es).map fun e => (some e.1, e.2), rest) := by
  induction es with
  | nil =>
    intro k j fuel rest h hfuel
    rw [renderEntries, List.length_singleton] at hfuel
    obtain ⟨fuel, rfl⟩ := Nat.exists_eq_add_of_le' (Nat.le_of_add_left_le hfuel)
    obtain ⟨hfits, hreads⟩ : Fits room j ∧ ReadsBack room j := h (k, j) (by simp)
    have hread := hreads fuel _ (by omega) (endsValue_renderEntries [] rest)
    rw [renderEntries, List.singleton_append] at hread ⊢
    rw [renderString_append, entries?]
    simp [string?_escaped, skipSpaces_cons, isSpace, skipSpaces_renderChars hfits, hread]
  | cons e es ih =>
    intro k j fuel rest h hfuel
    obtain ⟨k', j'⟩ := e
    simp only [renderEntries, List.length_cons, List.length_append] at hfuel
    obtain ⟨fuel, rfl⟩ := Nat.exists_eq_add_of_le' (m := 1) (n := fuel) (by omega)
    obtain ⟨hfits, hreads⟩ : Fits room j ∧ ReadsBack room j := h (k, j) (by simp)
    have hread := hreads fuel _ (by omega) (endsValue_renderEntries ((k', j') :: es) rest)
    have htail := ih k' j' fuel rest (fun e he => h e (List.mem_cons_of_mem (k, j) he)) (by omega)
    have hkey : skipSpaces (renderString k' ++ ':' :: (renderChars j' ++ (renderEntries es ++ rest)))
        = renderString k' ++ ':' :: (renderChars j' ++ (renderEntries es ++ rest)) :=
      skipSpaces_cons (by decide) _
    rw [renderEntries] at hread ⊢
    simp only [List.cons_append, List.append_assoc] at hread ⊢
    rw [renderString_append, entries?]
    simp [string?_escaped, skipSpaces_cons, isSpace, skipSpaces_renderChars hfits, hread,
      hkey, htail]

theorem ofEntries_map_some (es : List (String × Json)) :
    ofEntries (es.map fun e => (some e.1, e.2)) = .obj es := by
  have hmap : (es.map fun e => (some e.1, e.2)).mapM
      (fun e : Option String × Json => e.1.map fun k => (k, e.2)) = some es := by
    induction es with
    | nil => rfl
    | cons e es ih =>
      rw [List.map_cons, List.mapM_cons, ih]
      rfl
  rw [ofEntries, hmap]

theorem value?_arr {room : Nat} {items : List Json}
    (h : ∀ j ∈ items, Fits room j ∧ ReadsBack room j) {fuel : Nat} (rest : List Char)
    (hfuel : (renderChars (.arr items)).length ≤ fuel + 1) :
    value? (fuel + 1) (room + 1) (renderChars (.arr items) ++ rest) = some (.arr items, rest) := by
  cases items with
  | nil => rfl
  | cons j js =>
    have hfits := (h j (by simp)).1
    rw [renderChars, List.length_cons, List.length_append] at hfuel
    have hitems := items?_render js j fuel rest h (by omega)
    obtain ⟨c, cs, hcs, -, hc⟩ := exists_renderChars_cons hfits
    rw [renderChars, List.cons_append, List.append_assoc, value?, skipSpaces_renderChars hfits]
    split
    · next heq =>
      rw [hcs, List.cons_append] at heq
      exact absurd (List.cons.inj heq).1 hc
    · rw [Nat.add_sub_cancel, hitems]
      rfl

theorem value?_obj {room : Nat} {entries : List (String × Json)}
    (h : ∀ e ∈ entries, Fits room e.2 ∧ ReadsBack room e.2) {fuel : Nat} (rest : List Char)
    (hfuel : (renderChars (.obj entries)).length ≤ fuel + 1) :
    value? (fuel + 1) (room + 1) (renderChars (.obj entries) ++ rest) =
      some (.obj entries, rest) := by
  rcases entries with _ | ⟨⟨k, j⟩, es⟩
  · rfl
  · simp only [renderChars, List.length_cons, List.length_append] at hfuel
    have hentries := entries?_render es k j fuel rest h (by omega)
    rw [renderString_append] at hentries
    simp only [renderChars, List.cons_append, List.append_assoc]
    rw [value?, renderString_append, skipSpaces_cons (by decide)]
    split
    · next heq => exact absurd (List.cons.inj heq).1 (by decide)
    · rw [Nat.add_sub_cancel, hentries]
      show some (inRoom (room + 1) (ofEntries _), rest) = _
      rw [ofEntries_map_some]
      rfl

/-- **A value that fits is read from its text.** -/
theorem Fits.readsBack {room : Nat} : ∀ {j : Json}, Fits room j → ReadsBack room j := by
  -- The induction is on the room, of which each container takes one. The fuel has to last for the
  -- characters, and the text of a part has fewer of them than that of the whole.
  induction room using Nat.strongRecOn with
  | ind room ih =>
    intro j h fuel rest hfuel hrest
    obtain ⟨c, cs, hcs, -⟩ := exists_renderChars_cons h
    obtain ⟨fuel, rfl⟩ : ∃ m, fuel = m + 1 := by
      rw [hcs] at hfuel
      exact Nat.exists_eq_add_of_le' (Nat.le_of_add_left_le hfuel)
    cases j with
    | null => rfl
    | bool b => cases b <;> rfl
    | int n =>
      obtain ⟨hlow, hhigh⟩ := fits_int.mp h
      exact value?_of_number? (number?_toString hlow hhigh) hrest ..
    | float bits => exact value?_of_number? (fits_float.mp h) hrest ..
    | str s =>
      rw [renderChars, renderString_append, value?, string?_escaped]
      rfl
    | arr items =>
      cases room with
      | zero => exact absurd h (not_fits_zero_arr items)
      | succ room =>
        exact value?_arr (fun j hj => ⟨h j hj, ih room (Nat.lt_succ_self room) (h j hj)⟩) rest hfuel
    | obj entries =>
      cases room with
      | zero => exact absurd h (not_fits_zero_obj entries)
      | succ room =>
        exact value?_obj (fun e he => ⟨h e he, ih room (Nat.lt_succ_self room) (h e he)⟩) rest hfuel
    | unreadable => exact absurd h not_fits_unreadable

theorem parse?_render {j : Json} (h : Fits maxDepth j) : parse? j.render = some j := by
  have hread := h.readsBack (2 * (renderChars j).length + 2) [] (by omega) (.inl rfl)
  have hspaces := skipSpaces_renderChars h []
  rw [List.append_nil] at hread hspaces
  simp only [parse?, render, String.toList_ofList, hspaces, hread]
  rfl

-- The decimals 0.5, -0.1 and 1234.5678 are read as themselves, 1e-23 is not.
example : ReadAsItself 0x3fe0000000000000 ∧ ReadAsItself 0xbfb999999999999a ∧
    ReadAsItself 0x40934a456d5cfaad ∧ ¬ ReadAsItself 0x3b282db34012b251 := by
  decide +kernel

/-! ### Bytes -/

theorem markedText_bytesOfText (s : String) : markedText (bytesOfText s) = s := by
  rw [markedText, bytesOfText, decodeUtf8_flatMap, List.flatMap_map]
  exact (congrArg String.ofList (List.flatMap_singleton' s.toList)).trans String.ofList_toList

/-- **The bytes of a text** are read like the text. -/
theorem parseBytes?_bytesOfText (s : String) : parseBytes? (bytesOfText s) = parse? s := by
  rw [parseBytes?, markedText_bytesOfText]

-- The byte FF can be skipped within a string, but neither behind a backslash nor outside strings.
example : parseBytes? [0x5B, 0x22, 0xFF, 0x22, 0x5D] = some (.arr [.unreadable]) ∧
    parseBytes? [0x22, 0x5C, 0xFF, 0x22] = none ∧ parseBytes? [0x31, 0xFF] = none := by
  decide +kernel

end Entitlements.Json
