import Entitlements.Http.Host
import Entitlements.Proofs.Http.Percent

/-! # Hosts that are read again

A host in the form in which it is kept stands for itself: the plain name of a server
(`hostOf?_eq_self`) and the number of an address with four bytes (`hostOf?_ipv4Text`). -/

namespace Entitlements

variable {names : AsciiNames} {cs : List Char}

/-- What is not encoded is not decoded. -/
theorem textOfBytes_percentDecode (h : '%' ∉ cs) :
    textOfBytes (percentDecode cs) = String.ofList cs := by
  have hnothing : encodeWhere (fun _ => false) cs = cs := List.flatMap_singleton' cs
  have hdecode := percentDecode_encodeWhere (p := fun _ => false) h
  have hread := textOfBytes_bytesOfText (String.ofList cs)
  rw [hnothing] at hdecode
  rw [bytesOfText, String.toList_ofList] at hread
  rw [hdecode, hread]

/-- A name that is written in the characters of names is not decoded before it is read. -/
theorem hostOf?_of_chars (h : ∀ c ∈ cs, isHostChar c = true) (hplain : isPlainName cs = true)
    (hlower : ∀ c ∈ cs, c.toLower = c) : hostOf? names cs =
      if cs.isEmpty then none
      else if endsInNumber cs then (ipv4Of? cs).map ipv4Text else some (.ofList cs) := by
  have hpercent : '%' ∉ cs := fun hm => absurd (h _ hm) (by decide)
  have hmap : cs.map Char.toLower = cs := (List.map_congr_left hlower).trans (List.map_id _)
  have hall : cs.all isHostChar = true := List.all_eq_true.mpr h
  rw [hostOf?]
  · rw [textOfBytes_percentDecode hpercent, String.toList_ofList, if_pos hplain, hmap]
    simp only [Option.bind_eq_bind, Option.bind_some, hall, Bool.not_true, Bool.or_false]
  · rintro ds rfl
    exact absurd (h '[' List.mem_cons_self) (by decide)

/-- **A name** in lower case is kept as it is. -/
theorem hostOf?_eq_self (h : ∀ c ∈ cs, isHostChar c = true) (hplain : isPlainName cs = true)
    (hlower : ∀ c ∈ cs, c.toLower = c) (hne : cs ≠ []) (hnumber : endsInNumber cs = false) :
    hostOf? names cs = some (.ofList cs) := by
  rw [hostOf?_of_chars h hplain hlower, hnumber]
  simp [hne]

/-! ### Four numbers -/

/-- The digits of a byte. -/
def byteDigits (n : Nat) : List Char := (toString n).toList

/-- The text of a byte is a part of an address with four numbers, and of nothing else. -/
structure BytePart (n : Nat) : Prop where
  number : ipv4Number? (byteDigits n) = some n
  nonempty : byteDigits n ≠ []
  chars : ∀ c ∈ byteDigits n, isHostChar c = true ∧ c.toLower = c ∧ c.toNat < 0x80 ∧ c ≠ '.'
  label : "xn--".toList.isPrefixOf ((byteDigits n).map Char.toLower) = false

theorem bytePart {n : Nat} (h : n < 256) : BytePart n := by
  have hall : (List.range 256).all (fun n => ipv4Number? (byteDigits n) = some n ∧
      byteDigits n ≠ [] ∧
      (byteDigits n).all (fun c => isHostChar c ∧ c.toLower = c ∧ c.toNat < 0x80 ∧ c ≠ '.') = true ∧
      "xn--".toList.isPrefixOf ((byteDigits n).map Char.toLower) = false) = true := by
    decide +kernel
  obtain ⟨number, nonempty, chars, label⟩ :=
    of_decide_eq_true (List.all_eq_true.mp hall n (List.mem_range.mpr h))
  exact ⟨number, nonempty, fun c hc => of_decide_eq_true (List.all_eq_true.mp chars c hc), label⟩

/-- The text of four bytes. -/
def fourParts (a b c d : Nat) : List Char := ['.'].intercalate ([a, b, c, d].map byteDigits)

theorem fourParts_eq (a b c d : Nat) : fourParts a b c d = byteDigits a ++ '.' ::
    (byteDigits b ++ '.' :: (byteDigits c ++ '.' :: byteDigits d)) := by
  simp [fourParts, List.intercalate_cons_cons, List.intercalate_singleton]

theorem isEmpty_fourParts (a b c d : Nat) : (fourParts a b c d).isEmpty = false := by
  rw [fourParts_eq]
  exact List.isEmpty_eq_false_iff.mpr (by simp)

theorem toList_ipv4Text (n : Nat) : (ipv4Text n).toList =
    fourParts (n / 16777216 % 256) (n / 65536 % 256) (n / 256 % 256) (n % 256) := by
  have hlast : n / 1 % 256 = n % 256 := by rw [Nat.div_one]
  rw [ipv4Text, String.toList_intercalate, List.map_map, fourParts, ← hlast]
  rfl

section FourParts
variable {a b c d : Nat} (ha : a < 256) (hb : b < 256) (hc : c < 256) (hd : d < 256)
include ha hb hc hd

theorem bytePart_of_mem {n : Nat} (h : n ∈ [a, b, c, d]) : BytePart n := by
  simp only [List.mem_cons, List.not_mem_nil, or_false] at h
  rcases h with rfl | rfl | rfl | rfl
  · exact bytePart ha
  · exact bytePart hb
  · exact bytePart hc
  · exact bytePart hd

theorem splitOn_fourParts : splitOn '.' (fourParts a b c d) = [a, b, c, d].map byteDigits := by
  refine splitOn_intercalate (List.cons_ne_nil _ _) fun part hpart hm => ?_
  obtain ⟨n, hn, rfl⟩ := List.mem_map.mp hpart
  exact ((bytePart_of_mem ha hb hc hd hn).chars _ hm).2.2.2 rfl

theorem nameParts_fourParts : nameParts (fourParts a b c d) = [a, b, c, d].map byteDigits := by
  unfold nameParts
  rw [splitOn_fourParts ha hb hc hd]
  simp [(bytePart hd).nonempty]

theorem endsInNumber_fourParts : endsInNumber (fourParts a b c d) = true := by
  unfold endsInNumber
  rw [nameParts_fourParts ha hb hc hd]
  simp [(bytePart hd).number]

theorem ipv4Of?_fourParts :
    ipv4Of? (fourParts a b c d) = some (((a * 256 + b) * 256 + c) * 256 + d) := by
  unfold ipv4Of?
  rw [nameParts_fourParts ha hb hc hd]
  simp [(bytePart ha).number, (bytePart hb).number, (bytePart hc).number, (bytePart hd).number]
  omega

theorem mem_fourParts {x : Char} (h : x ∈ fourParts a b c d) :
    isHostChar x = true ∧ x.toLower = x ∧ x.toNat < 0x80 := by
  have hdigit : ∀ n < 256, x ∈ byteDigits n →
      isHostChar x = true ∧ x.toLower = x ∧ x.toNat < 0x80 := by
    intro n hn hx
    obtain ⟨hhost, hlower, hascii, -⟩ := (bytePart hn).chars x hx
    exact ⟨hhost, hlower, hascii⟩
  rw [fourParts_eq] at h
  simp only [List.mem_append, List.mem_cons] at h
  rcases h with h | rfl | h | rfl | h | rfl | h
  · exact hdigit a ha h
  · decide
  · exact hdigit b hb h
  · decide
  · exact hdigit c hc h
  · decide
  · exact hdigit d hd h

theorem isPlainName_fourParts : isPlainName (fourParts a b c d) = true := by
  unfold isPlainName
  rw [splitOn_fourParts ha hb hc hd, Bool.and_eq_true, List.all_eq_true, List.all_eq_true]
  refine ⟨fun x hx => by simpa using (mem_fourParts ha hb hc hd hx).2.2, fun part hpart => ?_⟩
  obtain ⟨n, hn, rfl⟩ := List.mem_map.mp hpart
  rw [(bytePart_of_mem ha hb hc hd hn).label]
  rfl

end FourParts

/-- **Four numbers** are read as they are written. -/
theorem hostOf?_ipv4Text {n : Nat} (h : n < Nat.pow 2 32) :
    hostOf? names (ipv4Text n).toList = some (ipv4Text n) := by
  have hlt : ∀ m, m % 256 < 256 := fun m => Nat.mod_lt m (by decide)
  have hchars := fun x => mem_fourParts (hlt (n / 16777216)) (hlt (n / 65536)) (hlt (n / 256))
    (hlt n) (x := x)
  rw [toList_ipv4Text, hostOf?_of_chars (fun x hx => (hchars x hx).1)
    (isPlainName_fourParts (hlt _) (hlt _) (hlt _) (hlt _)) fun x hx => (hchars x hx).2.1,
    endsInNumber_fourParts (hlt _) (hlt _) (hlt _) (hlt _),
    ipv4Of?_fourParts (hlt _) (hlt _) (hlt _) (hlt _)]
  have hnumber : ((n / 16777216 % 256 * 256 + n / 65536 % 256) * 256 + n / 256 % 256) * 256 +
      n % 256 = n := by
    have h : n < 4294967296 := h
    omega
  rw [isEmpty_fourParts, hnumber]
  rfl

-- Numbers are written in one way, and names are decoded and in lower case.
example : hostOf? (fun _ => none) "0x7F.1".toList = some "127.0.0.1" ∧
    hostOf? (fun _ => none) "999.0.0.1".toList = none ∧
    hostOf? (fun _ => none) "[2001:DB8::0:0:1]".toList = some "[2001:db8::1]" ∧
    hostOf? (fun _ => none) "[::ffff:192.0.2.1]".toList = some "[::ffff:c000:201]" ∧
    hostOf? (fun _ => none) "[1::2::3]".toList = none ∧
    hostOf? (fun _ => none) "I%61m.Test".toList = some "iam.test" ∧
    hostOf? (fun _ => some "xn--bcher-kva.test".toList) "bücher.test".toList =
      some "xn--bcher-kva.test" := by
  decide +kernel

end Entitlements
