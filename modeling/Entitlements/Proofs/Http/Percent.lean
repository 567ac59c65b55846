import Entitlements.Http.Percent
import Entitlements.Proofs.Text.Cut
import Entitlements.Proofs.Text.Utf8
import Mathlib.Data.List.TakeWhile

/-! # Percent-encoded texts

What is percent-encoded can be read again: texts without percent signs of their own
(`percentDecode_encodeWhere`), so that they differ when their encodings do not agree
(`encodeWhere_inj`), and the fields of a form, whatever they are (`formFields_encodeForm`). A form
goes on where a query ends (`formFields_append`). -/

namespace Entitlements

/-! ### Bytes -/

/-- The percent-encoding of a byte. -/
def percentByte (b : UInt8) : List Char :=
  ['%', upperHexDigit (b.toNat / 16), upperHexDigit (b.toNat % 16)]

theorem percentEncode_eq (c : Char) :
    percentEncode c = (String.utf8EncodeChar c).flatMap percentByte := rfl

theorem mem_percentByte {b : UInt8} {c : Char} (h : c ∈ percentByte b) :
    c = '%' ∨ ∃ n < 16, c = upperHexDigit n := by
  have hb := b.toNat_lt
  simp only [percentByte, List.mem_cons, List.not_mem_nil, or_false] at h
  rcases h with rfl | rfl | rfl
  · exact .inl rfl
  · exact .inr ⟨_, by omega, rfl⟩
  · exact .inr ⟨_, by omega, rfl⟩

/-- The characters of encodings, all of them other than these. -/
theorem not_mem_percentEncode {d : Char} (hpercent : d ≠ '%')
    (hdigit : ∀ n < 16, upperHexDigit n ≠ d) (c : Char) : d ∉ percentEncode c := by
  rw [percentEncode_eq]
  intro h
  obtain ⟨b, -, hb⟩ := List.mem_flatMap.mp h
  rcases mem_percentByte hb with rfl | ⟨n, hn, rfl⟩
  · exact hpercent rfl
  · exact hdigit n hn rfl

theorem hexValue?_upperHexDigit : ∀ n < 16, Json.hexValue? (upperHexDigit n) = some n := by decide

theorem percentDecode_percentByte (b : UInt8) (cs : List Char) :
    percentDecode (percentByte b ++ cs) = b :: percentDecode cs := by
  have hb := b.toNat_lt
  show percentDecode ('%' :: _ :: _ :: cs) = _
  rw [percentDecode, hexValue?_upperHexDigit _ (by omega), hexValue?_upperHexDigit _ (by omega)]
  have hbyte : b.toNat / 16 * 16 + b.toNat % 16 = b.toNat := by omega
  dsimp only
  rw [hbyte, UInt8.ofNat_toNat]

theorem percentDecode_percentEncode (c : Char) (cs : List Char) :
    percentDecode (percentEncode c ++ cs) = String.utf8EncodeChar c ++ percentDecode cs := by
  rw [percentEncode_eq]
  induction String.utf8EncodeChar c with
  | nil => rfl
  | cons b bs ih =>
    rw [List.flatMap_cons, List.append_assoc, percentDecode_percentByte, ih, List.cons_append]

theorem percentDecode_cons {c : Char} (hc : c ≠ '%') (cs : List Char) :
    percentDecode (c :: cs) = String.utf8EncodeChar c ++ percentDecode cs := by
  rw [percentDecode]
  exact fun _ _ _ heq _ => hc heq

/-! ### Texts -/

/-- **What is encoded can be decoded**, unless it has percent signs of its own. -/
theorem percentDecode_encodeWhere {p : Char → Bool} : ∀ {cs : List Char}, '%' ∉ cs →
    percentDecode (encodeWhere p cs) = cs.flatMap String.utf8EncodeChar
  | [], _ => rfl
  | c :: cs, h => by
    obtain ⟨hc, hcs⟩ := not_or.mp (mt List.mem_cons.mpr h)
    show percentDecode ((if p c then percentEncode c else [c]) ++ encodeWhere p cs) = _
    rw [List.flatMap_cons, ← percentDecode_encodeWhere hcs]
    split
    · exact percentDecode_percentEncode c _
    · exact percentDecode_cons (Ne.symm hc) _

/-- **Encodings differ** for texts without percent signs. -/
theorem encodeWhere_inj {p : Char → Bool} {cs ds : List Char} (hcs : '%' ∉ cs) (hds : '%' ∉ ds)
    (h : encodeWhere p cs = encodeWhere p ds) : cs = ds := by
  have hbytes : cs.flatMap String.utf8EncodeChar = ds.flatMap String.utf8EncodeChar := by
    rw [← percentDecode_encodeWhere hcs, ← percentDecode_encodeWhere hds, h]
  have hchars := congrArg decodeUtf8 hbytes
  rw [decodeUtf8_flatMap, decodeUtf8_flatMap] at hchars
  exact List.map_inj_right (fun _ _ => Option.some.inj) |>.mp hchars

theorem slash_not_mem_encodeWhere {p : Char → Bool} {cs : List Char} (h : '/' ∉ cs) :
    '/' ∉ encodeWhere p cs := by
  intro hm
  obtain ⟨c, hc, hmem⟩ := List.mem_flatMap.mp hm
  split at hmem
  · exact not_mem_percentEncode (by decide) (by decide) c hmem
  · exact h (List.mem_singleton.mp hmem ▸ hc)

/-! ### Forms -/

/-- The text of a part of a form, where a plus is a space. -/
def formText (cs : List Char) : String :=
  textOfBytes (percentDecode (cs.map fun c => if c = '+' then ' ' else c))

/-- The fields of a form as they are read: names and values, of which empty ones do not count. -/
def formFields (cs : List Char) : List (String × String) :=
  ((splitOn '&' cs).filter (!·.isEmpty)).map fun field =>
    (formText (field.takeWhile (· != '=')), formText ((field.dropWhile (· != '=')).drop 1))

/-- The characters of encoded parts: a space is a plus, and others are as they are or encoded. -/
theorem encodeFormChar_cases (c : Char) :
    (c = ' ' ∧ encodeFormChar c = ['+']) ∨
    (c ≠ '+' ∧ c ≠ '%' ∧ c ≠ '&' ∧ c ≠ '=' ∧ encodeFormChar c = [c]) ∨
    encodeFormChar c = percentEncode c := by
  by_cases hspace : c = ' '
  · exact .inl ⟨hspace, if_pos hspace⟩
  · by_cases hplain : (c.isAlphanum || ['*', '-', '.', '_'].contains c) = true
    · have hne : ∀ d : Char, (d.isAlphanum || ['*', '-', '.', '_'].contains d) = false → c ≠ d := by
        rintro d hd rfl
        rw [hplain] at hd
        cases hd
      exact .inr (.inl ⟨hne _ (by decide), hne _ (by decide), hne _ (by decide), hne _ (by decide),
        (if_neg hspace).trans (if_pos hplain)⟩)
    · exact .inr (.inr ((if_neg hspace).trans (if_neg hplain)))

theorem not_mem_encodeFormChar (c : Char) : '&' ∉ encodeFormChar c ∧ '=' ∉ encodeFormChar c := by
  rcases encodeFormChar_cases c with ⟨-, hc⟩ | ⟨-, -, hand, heq, hc⟩ | hc
  · rw [hc]
    decide
  · rw [hc]
    exact ⟨by simpa using hand.symm, by simpa using heq.symm⟩
  · rw [hc]
    exact ⟨not_mem_percentEncode (by decide) (by decide) c,
      not_mem_percentEncode (by decide) (by decide) c⟩

theorem not_mem_encodeFormText (cs : List Char) :
    '&' ∉ cs.flatMap encodeFormChar ∧ '=' ∉ cs.flatMap encodeFormChar := by
  constructor
  · intro h
    obtain ⟨c, -, hc⟩ := List.mem_flatMap.mp h
    exact (not_mem_encodeFormChar c).1 hc
  · intro h
    obtain ⟨c, -, hc⟩ := List.mem_flatMap.mp h
    exact (not_mem_encodeFormChar c).2 hc

/-- **A part of a form** is read as it was written. -/
theorem formText_encodeFormText (s : String) : formText (s.toList.flatMap encodeFormChar) = s := by
  have hbytes : ∀ cs : List Char, percentDecode ((cs.flatMap encodeFormChar).map
      fun c => if c = '+' then ' ' else c) = cs.flatMap String.utf8EncodeChar := by
    intro cs
    induction cs with
    | nil => rfl
    | cons c cs ih =>
      rw [List.flatMap_cons, List.map_append, List.flatMap_cons, ← ih]
      rcases encodeFormChar_cases c with ⟨rfl, hc⟩ | ⟨hplus, hpercent, -, -, hc⟩ | hc
      · rw [hc]
        exact percentDecode_cons (by decide) _
      · rw [hc, List.map_singleton, if_neg hplus]
        exact percentDecode_cons hpercent _
      · have hsame : (percentEncode c).map (fun c => if c = '+' then ' ' else c) =
            percentEncode c := by
          refine (List.map_congr_left fun d hd => if_neg ?_).trans (List.map_id _)
          rintro rfl
          exact not_mem_percentEncode (by decide) (by decide) c hd
        rw [hc, hsame]
        exact percentDecode_percentEncode c _
  rw [formText, hbytes]
  exact textOfBytes_bytesOfText s

/-- The text of a field. -/
def formField (f : String × String) : List Char :=
  f.1.toList.flatMap encodeFormChar ++ '=' :: f.2.toList.flatMap encodeFormChar

/-- **The fields of a form** are read as they were written. -/
theorem formFields_encodeForm (fields : List (String × String)) :
    formFields (encodeForm fields) = fields := by
  cases fields with
  | nil => rfl
  | cons f fs =>
    have hne : (f :: fs).map formField ≠ [] := List.cons_ne_nil _ _
    have hand : ∀ field ∈ (f :: fs).map formField, '&' ∉ field := by
      intro field hfield
      obtain ⟨g, -, rfl⟩ := List.mem_map.mp hfield
      refine List.not_mem_append (not_mem_encodeFormText _).1 (mt List.mem_cons.mp ?_)
      exact not_or.mpr ⟨by decide, (not_mem_encodeFormText _).1⟩
    have hkept : ((f :: fs).map formField).filter (!·.isEmpty) = (f :: fs).map formField := by
      refine List.filter_eq_self.mpr fun field hfield => ?_
      obtain ⟨g, -, rfl⟩ := List.mem_map.mp hfield
      simp [formField]
    have hread : ∀ g : String × String, (formText ((formField g).takeWhile (· != '=')),
        formText (((formField g).dropWhile (· != '=')).drop 1)) = g := by
      rintro ⟨name, value⟩
      have hname : ∀ c ∈ name.toList.flatMap encodeFormChar, (c != '=') = true := fun c hc =>
        bne_iff_ne.mpr fun heq => (not_mem_encodeFormText name.toList).2 (heq ▸ hc)
      rw [formField, List.takeWhile_append_of_pos hname, List.dropWhile_append_of_pos hname]
      simp [formText_encodeFormText]
    show ((splitOn '&' (['&'].intercalate ((f :: fs).map formField))).filter _).map _ = _
    rw [splitOn_intercalate hne hand, hkept, List.map_map]
    exact (List.map_congr_left fun g _ => hread g).trans (List.map_id _)

/-- A form that goes on behind another one. -/
theorem formFields_append (cs ds : List Char) :
    formFields (cs ++ '&' :: ds) = formFields cs ++ formFields ds := by
  rw [formFields, splitOn_append_sep, List.filter_append, List.map_append]
  rfl

end Entitlements
