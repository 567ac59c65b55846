import Entitlements.Text.Utf8
import Mathlib.Tactic.SplitIfs

/-! # Texts and their bytes

The bytes of a text are read as that text (`textOfBytes_bytesOfText`): the sequence that a
character is written as is taken as a whole, whatever follows it (`decodeUtf8_utf8EncodeChar`). -/

namespace Entitlements

/-! ### Sequences -/

section Sequences
variable {b x y z : UInt8} {rest : List UInt8}

/-- Bytes are compared by their numbers. -/
theorem between_eq_true_iff (low high : Nat) (hlow : low < 256) (hhigh : high < 256) :
    (UInt8.ofNat low ≤ b && b ≤ UInt8.ofNat high) = true ↔ low ≤ b.toNat ∧ b.toNat ≤ high := by
  simp [UInt8.le_iff_toNat_le, Nat.mod_eq_of_lt hlow, Nat.mod_eq_of_lt hhigh]

theorem not_lt_of_le (h : 0x80 ≤ b.toNat) : ¬ b < 0x80 := fun hlt =>
  Nat.not_lt.mpr h (UInt8.lt_iff_toNat_lt.mp hlt)

theorem isTail_of_le (h : 0x80 ≤ x.toNat ∧ x.toNat ≤ 0xBF) : isTail x = true :=
  (between_eq_true_iff 0x80 0xBF (by decide) (by decide)).mpr h

theorem takeSequence_one (hb : b.toNat < 0x80) :
    takeSequence b rest = (some (Char.ofNat b.toNat), 0) :=
  if_pos (UInt8.lt_iff_toNat_lt.mpr hb)

theorem takeSequence_two (hb : 0xC2 ≤ b.toNat ∧ b.toNat ≤ 0xDF) (hx : isTail x = true) :
    takeSequence b (x :: rest) = (some (Char.ofNat (b.toNat % 32 * 64 + x.toNat % 64)), 1) := by
  have htwo := (between_eq_true_iff 0xC2 0xDF (by decide) (by decide)).mpr hb
  refine (if_neg (not_lt_of_le (by omega))).trans ((if_pos htwo).trans ?_)
  exact if_pos hx

theorem takeSequence_three (hb : 0xE0 ≤ b.toNat ∧ b.toNat ≤ 0xEF) (hx : isTail x = true)
    (hy : isTail y = true) (hlow : b.toNat ≠ 0xE0 ∨ 0xA0 ≤ x.toNat)
    (hhigh : b.toNat ≠ 0xED ∨ x.toNat ≤ 0x9F) :
    takeSequence b (x :: y :: rest) =
      (some (Char.ofNat ((b.toNat % 16 * 64 + x.toNat % 64) * 64 + y.toNat % 64)), 2) := by
  have hthree := (between_eq_true_iff 0xE0 0xEF (by decide) (by decide)).mpr hb
  have hsecond : (isTail x && (b != 0xE0 || 0xA0 ≤ x) && (b != 0xED || x ≤ 0x9F)) = true := by
    simp only [hx, Bool.true_and, Bool.and_eq_true, Bool.or_eq_true, bne_iff_ne, ne_eq,
      decide_eq_true_eq, UInt8.le_iff_toNat_le, ← UInt8.toNat_inj]
    exact ⟨hlow, hhigh⟩
  refine (if_neg (not_lt_of_le (by omega))).trans ((if_neg fun htwo => ?_).trans ?_)
  · have := (between_eq_true_iff 0xC2 0xDF (by decide) (by decide)).mp htwo
    omega
  · exact (if_pos hthree).trans ((if_pos hsecond).trans (if_pos hy))

theorem takeSequence_four (hb : 0xF0 ≤ b.toNat ∧ b.toNat ≤ 0xF4) (hx : isTail x = true)
    (hy : isTail y = true) (hz : isTail z = true) (hlow : b.toNat ≠ 0xF0 ∨ 0x90 ≤ x.toNat)
    (hhigh : b.toNat ≠ 0xF4 ∨ x.toNat ≤ 0x8F) :
    takeSequence b (x :: y :: z :: rest) =
      (some (Char.ofNat
        (((b.toNat % 8 * 64 + x.toNat % 64) * 64 + y.toNat % 64) * 64 + z.toNat % 64)), 3) := by
  have hfour := (between_eq_true_iff 0xF0 0xF4 (by decide) (by decide)).mpr hb
  have hsecond : (isTail x && (b != 0xF0 || 0x90 ≤ x) && (b != 0xF4 || x ≤ 0x8F)) = true := by
    simp only [hx, Bool.true_and, Bool.and_eq_true, Bool.or_eq_true, bne_iff_ne, ne_eq,
      decide_eq_true_eq, UInt8.le_iff_toNat_le, ← UInt8.toNat_inj]
    exact ⟨hlow, hhigh⟩
  refine (if_neg (not_lt_of_le (by omega))).trans ((if_neg fun htwo => ?_).trans
    ((if_neg fun hthree => ?_).trans ?_))
  · have := (between_eq_true_iff 0xC2 0xDF (by decide) (by decide)).mp htwo
    omega
  · have := (between_eq_true_iff 0xE0 0xEF (by decide) (by decide)).mp hthree
    omega
  · exact (if_pos hfour).trans ((if_pos hsecond).trans ((if_pos hy).trans (if_pos hz)))

end Sequences

/-! ### Characters -/

theorem decodeUtf8_cons {b : UInt8} (bs : List UInt8) {rest : List UInt8} {c : Option Char}
    (h : takeSequence b (bs ++ rest) = (c, bs.length)) :
    decodeUtf8 (b :: (bs ++ rest)) = c :: decodeUtf8 rest := by
  rw [decodeUtf8, h]
  simp

/-- **The bytes of a character** are taken as that character. -/
theorem decodeUtf8_utf8EncodeChar (c : Char) (rest : List UInt8) :
    decodeUtf8 (String.utf8EncodeChar c ++ rest) = some c :: decodeUtf8 rest := by
  have hv : c.val.toNat < 0xD800 ∨ 0xDFFF < c.val.toNat ∧ c.val.toNat < 0x110000 := c.valid
  have hc : Char.ofNat c.val.toNat = c := Char.ofNat_toNat c
  have hbyte : ∀ {n : Nat}, n < 256 → (UInt8.ofNat n).toNat = n := UInt8.toNat_ofNat_of_lt
  unfold String.utf8EncodeChar
  generalize c.val.toNat = v at hv hc
  dsimp only
  split_ifs with h1 h2 h3
  · refine decodeUtf8_cons [] ((takeSequence_one ?_).trans ?_)
    · rw [hbyte (by omega)]
      omega
    · rw [hbyte (by omega), hc]
      rfl
  · refine decodeUtf8_cons [_] ((takeSequence_two ?_ (isTail_of_le ?_)).trans ?_)
    · rw [hbyte (by omega)]
      omega
    · rw [hbyte (by omega)]
      omega
    · rw [hbyte (by omega), hbyte (by omega), ← hc]
      have hn : (v / 64 % 32 + 192) % 32 * 64 + (v % 64 + 128) % 64 = v := by omega
      rw [hn]
      rfl
  · have hx : isTail (UInt8.ofNat (v / 64 % 64 + 128)) = true :=
      isTail_of_le (by rw [hbyte (by omega)]; omega)
    have hy : isTail (UInt8.ofNat (v % 64 + 128)) = true :=
      isTail_of_le (by rw [hbyte (by omega)]; omega)
    refine decodeUtf8_cons [_, _] ((takeSequence_three ?_ hx hy ?_ ?_).trans ?_)
    · rw [hbyte (by omega)]
      omega
    · rw [hbyte (by omega), hbyte (by omega)]
      omega
    · rw [hbyte (by omega), hbyte (by omega)]
      omega
    · rw [hbyte (by omega), hbyte (by omega), hbyte (by omega), ← hc]
      have hn : ((v / 4096 % 16 + 224) % 16 * 64 + (v / 64 % 64 + 128) % 64) * 64 +
          (v % 64 + 128) % 64 = v := by omega
      rw [hn]
      rfl
  · have hx : isTail (UInt8.ofNat (v / 4096 % 64 + 128)) = true :=
      isTail_of_le (by rw [hbyte (by omega)]; omega)
    have hy : isTail (UInt8.ofNat (v / 64 % 64 + 128)) = true :=
      isTail_of_le (by rw [hbyte (by omega)]; omega)
    have hz : isTail (UInt8.ofNat (v % 64 + 128)) = true :=
      isTail_of_le (by rw [hbyte (by omega)]; omega)
    refine decodeUtf8_cons [_, _, _] ((takeSequence_four ?_ hx hy hz ?_ ?_).trans ?_)
    · rw [hbyte (by omega)]
      omega
    · rw [hbyte (by omega), hbyte (by omega)]
      omega
    · rw [hbyte (by omega), hbyte (by omega)]
      omega
    · rw [hbyte (by omega), hbyte (by omega), hbyte (by omega), hbyte (by omega), ← hc]
      have hn : (((v / 262144 % 8 + 240) % 8 * 64 + (v / 4096 % 64 + 128) % 64) * 64 +
          (v / 64 % 64 + 128) % 64) * 64 + (v % 64 + 128) % 64 = v := by omega
      rw [hn]
      rfl

/-! ### Texts -/

theorem decodeUtf8_flatMap (cs : List Char) :
    decodeUtf8 (cs.flatMap String.utf8EncodeChar) = cs.map some := by
  induction cs with
  | nil =>
    rw [List.flatMap_nil, decodeUtf8]
    rfl
  | cons c cs ih => rw [List.flatMap_cons, decodeUtf8_utf8EncodeChar, ih, List.map_cons]

/-- **The bytes of a text** are read as that text, without gaps. -/
theorem textOfBytes_bytesOfText (s : String) : textOfBytes (bytesOfText s) = s := by
  rw [textOfBytes, bytesOfText, decodeUtf8_flatMap, List.map_map]
  exact (congrArg String.ofList (List.map_id s.toList)).trans (String.ofList_toList)

end Entitlements
