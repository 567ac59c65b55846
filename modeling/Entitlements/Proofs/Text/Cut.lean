import Entitlements.Text.Blank

/-! # Cutting and trimming

What `trim` and `splitOn` give, without reference to how they work: the one text without blanks at
its ends (`Trimmed`), and the one list of pieces between separators (`Cut`). -/

namespace Entitlements

/-! ### Trimming -/

/-- A run of blanks, possibly empty. -/
def Blanks (cs : List Char) : Prop := ∀ c ∈ cs, isBlank c = true

/-- A text that neither starts nor ends with a blank. -/
structure NoBlankEnds (cs : List Char) : Prop where
  head : ∀ c, cs.head? = some c → isBlank c = false
  last : ∀ c, cs.getLast? = some c → isBlank c = false

/-- `t` is the text `cs` without the blanks at its two ends. -/
def Trimmed (cs t : List Char) : Prop :=
  ∃ b b', Blanks b ∧ Blanks b' ∧ cs = b ++ t ++ b' ∧ NoBlankEnds t

theorem Blanks.append {b b' : List Char} (h : Blanks b) (h' : Blanks b') : Blanks (b ++ b') := by
  intro c hc
  rcases List.mem_append.mp hc with hc | hc
  · exact h c hc
  · exact h' c hc

theorem blanks_takeWhile (cs : List Char) : Blanks (cs.takeWhile isBlank) := fun _ hc =>
  List.all_eq_true.mp List.all_takeWhile _ hc

theorem dropBlanks_append {b : List Char} (hb : Blanks b) (cs : List Char) :
    dropBlanks (b ++ cs) = dropBlanks cs := List.dropWhile_append_of_pos hb

theorem dropBlanks_eq_self {cs : List Char} (h : ∀ c, cs.head? = some c → isBlank c = false) :
    dropBlanks cs = cs := by
  cases cs with
  | nil => rfl
  | cons c cs => rw [dropBlanks, List.dropWhile_cons_of_neg (by simp [h c rfl])]

theorem head_dropBlanks (cs : List Char) :
    ∀ c, (dropBlanks cs).head? = some c → isBlank c = false := by
  intro c hc
  have := List.head?_dropWhile_not isBlank cs
  unfold dropBlanks at hc
  rw [hc] at this
  simpa using this

/-- The blanks at the start and what follows them. -/
theorem exists_blanks_append (cs : List Char) : ∃ b, Blanks b ∧ cs = b ++ dropBlanks cs :=
  ⟨_, blanks_takeWhile cs, List.takeWhile_append_dropWhile.symm⟩

theorem Blanks.reverse {b : List Char} (h : Blanks b) : Blanks b.reverse := fun c hc =>
  h c (List.mem_reverse.mp hc)

theorem dropBlanksEnd_append {b : List Char} (hb : Blanks b) (cs : List Char) :
    dropBlanksEnd (cs ++ b) = dropBlanksEnd cs := by
  unfold dropBlanksEnd
  rw [List.reverse_append, List.dropWhile_append_of_pos hb.reverse]

theorem dropBlanksEnd_eq_self {cs : List Char}
    (h : ∀ c, cs.getLast? = some c → isBlank c = false) : dropBlanksEnd cs = cs := by
  have : cs.reverse.dropWhile isBlank = cs.reverse := dropBlanks_eq_self (by simpa using h)
  rw [dropBlanksEnd, this, List.reverse_reverse]

theorem last_dropBlanksEnd (cs : List Char) :
    ∀ c, (dropBlanksEnd cs).getLast? = some c → isBlank c = false := by
  intro c hc
  rw [dropBlanksEnd, List.getLast?_reverse] at hc
  exact head_dropBlanks cs.reverse c hc

theorem exists_append_blanks (cs : List Char) : ∃ b, Blanks b ∧ cs = dropBlanksEnd cs ++ b := by
  obtain ⟨b, hb, h⟩ := exists_blanks_append cs.reverse
  refine ⟨b.reverse, hb.reverse, ?_⟩
  have := congrArg List.reverse h
  rwa [List.reverse_reverse, List.reverse_append] at this

/-- Dropping blanks from the end leaves a start that is no blank. -/
theorem head_dropBlanksEnd {cs : List Char} (h : ∀ c, cs.head? = some c → isBlank c = false) :
    ∀ c, (dropBlanksEnd cs).head? = some c → isBlank c = false := by
  intro c hc
  obtain ⟨b, -, hcs⟩ := exists_append_blanks cs
  refine h c ?_
  rw [hcs, List.head?_append, hc]
  rfl

/-- The end of a text is that of what stands last in it. -/
theorem last_of_append {a cs : List Char}
    (h : ∀ c, (a ++ cs).getLast? = some c → isBlank c = false) :
    ∀ c, cs.getLast? = some c → isBlank c = false := by
  intro c hc
  refine h c ?_
  rw [List.getLast?_append, hc]
  rfl

/-- **Trimming** takes off the blanks at both ends. -/
theorem trimmed_trim (cs : List Char) : Trimmed cs (trim cs) := by
  obtain ⟨b, hb, h⟩ := exists_blanks_append cs
  obtain ⟨b', hb', h'⟩ := exists_append_blanks (dropBlanks cs)
  refine ⟨b, b', hb, hb', ?_, head_dropBlanksEnd (head_dropBlanks cs), last_dropBlanksEnd _⟩
  rw [List.append_assoc, trim, ← h', ← h]

theorem Trimmed.noBlankEnds {cs t : List Char} (h : Trimmed cs t) : NoBlankEnds t := by
  obtain ⟨-, -, -, -, -, ht⟩ := h
  exact ht

theorem noBlankEnds_trim (cs : List Char) : NoBlankEnds (trim cs) :=
  (trimmed_trim cs).noBlankEnds

theorem trim_eq_self {cs : List Char} (h : NoBlankEnds cs) : trim cs = cs := by
  rw [trim, dropBlanks_eq_self h.head, dropBlanksEnd_eq_self h.last]

theorem trim_blanks_append {b : List Char} (hb : Blanks b) (cs : List Char) :
    trim (b ++ cs) = trim cs := by
  rw [trim, dropBlanks_append hb, ← trim]

theorem trim_eq_nil {b : List Char} (hb : Blanks b) : trim b = [] := by
  have := trim_blanks_append hb []
  rwa [List.append_nil] at this

theorem trim_append_blanks {b : List Char} (hb : Blanks b) (cs : List Char) :
    trim (cs ++ b) = trim cs := by
  obtain ⟨b', hb', h⟩ := exists_blanks_append cs
  rcases hd : dropBlanks cs with _ | ⟨c, t⟩
  · rw [hd, List.append_nil] at h
    rw [h, trim_eq_nil (hb'.append hb), trim_eq_nil hb']
  · have hhead := head_dropBlanks cs
    rw [hd] at hhead
    rw [hd] at h
    rw [h, List.append_assoc, trim_blanks_append hb', trim_blanks_append hb', trim, trim,
      dropBlanks_eq_self (by simpa using hhead), dropBlanks_eq_self hhead, dropBlanksEnd_append hb]

theorem Trimmed.trim_eq {cs t : List Char} (h : Trimmed cs t) : trim cs = t := by
  obtain ⟨b, b', hb, hb', rfl, ht⟩ := h
  rw [trim_append_blanks hb', trim_blanks_append hb, trim_eq_self ht]

theorem Trimmed.subset {cs t : List Char} (h : Trimmed cs t) : t ⊆ cs := by
  obtain ⟨b, b', -, -, rfl, -⟩ := h
  simp

/-! ### Cutting -/

/-- The pieces of a text between the separators in it. -/
inductive Cut (sep : Char) : List Char → List (List Char) → Prop
  | last {cs : List Char} (h : sep ∉ cs) : Cut sep cs [cs]
  | piece {a cs : List Char} {pieces : List (List Char)} (h : sep ∉ a) (rest : Cut sep cs pieces) :
      Cut sep (a ++ sep :: cs) (a :: pieces)

theorem splitOn_of_not_mem {sep : Char} : ∀ {cs : List Char}, sep ∉ cs → splitOn sep cs = [cs]
  | [], _ => rfl
  | c :: cs, h => by
    have hc : c ≠ sep := fun hc => h (by simp [hc])
    have hcs : sep ∉ cs := fun hm => h (List.mem_cons_of_mem c hm)
    rw [splitOn, if_neg hc, splitOn_of_not_mem hcs]

theorem splitOn_append_cons {sep : Char} (cs : List Char) : ∀ {a : List Char}, sep ∉ a →
    splitOn sep (a ++ sep :: cs) = a :: splitOn sep cs
  | [], _ => by simp [splitOn]
  | c :: a, h => by
    have hc : c ≠ sep := fun hc => h (by simp [hc])
    have ha : sep ∉ a := fun hm => h (List.mem_cons_of_mem c hm)
    rw [List.cons_append, splitOn, if_neg hc, splitOn_append_cons cs ha]

theorem splitOn_intercalate {sep : Char} : ∀ {pieces : List (List Char)}, pieces ≠ [] →
    (∀ piece ∈ pieces, sep ∉ piece) → splitOn sep ([sep].intercalate pieces) = pieces
  | [piece], _, h => by
    rw [List.intercalate_singleton]
    exact splitOn_of_not_mem (h piece List.mem_cons_self)
  | piece :: next :: pieces, _, h => by
    have ih := splitOn_intercalate (List.cons_ne_nil next pieces) fun p hp =>
      h p (List.mem_cons_of_mem _ hp)
    rw [List.intercalate_cons_cons, List.append_assoc, List.singleton_append,
      splitOn_append_cons _ (h piece List.mem_cons_self), ih]

/-- Blanks in front of a text stay with its first piece, where trimming takes them off. -/
theorem map_trim_splitOn_append {sep : Char} (hsep : isBlank sep = false) {b : List Char}
    (hb : Blanks b) (cs : List Char) :
    (splitOn sep (b ++ cs)).map trim = (splitOn sep cs).map trim := by
  induction b with
  | nil => rfl
  | cons c b ih =>
    have hc : isBlank c = true := hb c List.mem_cons_self
    have hne : c ≠ sep := by
      rintro rfl
      rw [hc] at hsep
      cases hsep
    rw [← ih fun x hx => hb x (List.mem_cons_of_mem c hx), List.cons_append, splitOn, if_neg hne]
    split
    · next hnil => exact absurd hnil (splitOn_ne_nil sep _)
    · next piece pieces heq =>
      have := trim_blanks_append (b := [c]) (by simpa [Blanks] using hc) piece
      rw [heq, List.map_cons, List.map_cons, ← this]
      rfl

theorem Cut.splitOn_eq {sep : Char} {cs : List Char} {pieces : List (List Char)}
    (h : Cut sep cs pieces) : splitOn sep cs = pieces := by
  induction h with
  | last h => exact splitOn_of_not_mem h
  | piece h _ ih => rw [splitOn_append_cons _ h, ih]

theorem exists_cut (sep : Char) : ∀ cs : List Char, ∃ pieces, Cut sep cs pieces
  | [] => ⟨[[]], .last List.not_mem_nil⟩
  | c :: cs => by
    obtain ⟨pieces, h⟩ := exists_cut sep cs
    by_cases hc : c = sep
    · subst hc
      have hcut : Cut c ([] ++ c :: cs) ([] :: pieces) := .piece List.not_mem_nil h
      exact ⟨_, hcut⟩
    · rcases h with h | ⟨ha, h⟩
      · exact ⟨_, .last (by simpa [Ne.symm hc] using h)⟩
      · exact ⟨_, .piece (a := c :: _) (by simpa [Ne.symm hc] using ha) h⟩

theorem Cut.not_mem {sep : Char} {cs : List Char} {pieces : List (List Char)}
    (h : Cut sep cs pieces) : ∀ piece ∈ pieces, sep ∉ piece := by
  induction h with
  | last h => exact List.forall_mem_singleton.mpr h
  | piece h _ ih => exact List.forall_mem_cons.mpr ⟨h, ih⟩

theorem Cut.ne_nil {sep : Char} {cs : List Char} {pieces : List (List Char)}
    (h : Cut sep cs pieces) : pieces ≠ [] := by
  cases h with
  | last => exact List.cons_ne_nil _ _
  | piece => exact List.cons_ne_nil _ _

/-- The separators between the pieces give the text back. -/
theorem Cut.intercalate_eq {sep : Char} {cs : List Char} {pieces : List (List Char)}
    (h : Cut sep cs pieces) : [sep].intercalate pieces = cs := by
  induction h with
  | last => exact List.intercalate_singleton
  | @piece a cs pieces _ rest ih =>
    obtain ⟨next, pieces, rfl⟩ := List.exists_cons_of_ne_nil rest.ne_nil
    rw [List.intercalate_cons_cons, ih, List.append_assoc, List.singleton_append]

/-- **Cutting** gives the pieces between the separators. -/
theorem cut_iff {sep : Char} {cs : List Char} {pieces : List (List Char)} :
    Cut sep cs pieces ↔ splitOn sep cs = pieces := by
  constructor
  · exact Cut.splitOn_eq
  · rintro rfl
    obtain ⟨pieces, h⟩ := exists_cut sep cs
    rwa [h.splitOn_eq]

/-- A separator cuts a text in two, each of which is cut on its own. -/
theorem splitOn_append_sep (sep : Char) (a b : List Char) :
    splitOn sep (a ++ sep :: b) = splitOn sep a ++ splitOn sep b := by
  obtain ⟨pieces, h⟩ := exists_cut sep a
  rw [h.splitOn_eq]
  induction h with
  | last h => exact splitOn_append_cons b h
  | piece h _ ih => rw [List.append_assoc, List.cons_append, splitOn_append_cons _ h, ih]; rfl

end Entitlements
