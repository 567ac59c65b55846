import Entitlements.Proofs.Statement.Grammar

/-! # Patterns: the expression that recognises a clause

A pattern is matched at the start of a text by backtracking. `Pattern.results` lists its matches in
the order in which they are tried, the longer ones of a repetition first, and the first of them
counts (`Pattern.first?`). The grammar of a clause as one pattern is `clausePattern`: in a text that
does not end with a blank it captures what the scanners take (`first?_clausePattern`,
`first?_clausePattern_eq_none`). -/

namespace Entitlements

/-- An expression for texts. -/
inductive Pattern where
  | empty
  | one (p : Char → Bool)
  | seq (a b : Pattern)
  | either (a b : Pattern)
  | many (a : Pattern)
  | capture (n : Nat) (a : Pattern)

/-- Where a match ends, and the texts it has captured, the last one first. -/
structure Match where
  rest : List Char
  captures : List (Nat × List Char)

namespace Match

/-- A match and one that goes on behind it. -/
def followedBy (m m' : Match) : Match := ⟨m'.rest, m'.captures ++ m.captures⟩

/-- A match of `cs` whose text is captured. -/
def captured (n : Nat) (cs : List Char) (m : Match) : Match :=
  ⟨m.rest, (n, cs.take (cs.length - m.rest.length)) :: m.captures⟩

/-- The text captured last under a number. -/
def capture? (m : Match) (n : Nat) : Option (List Char) := m.captures.lookup n

@[simp] theorem followedBy_nil (cs : List Char) : followedBy ⟨cs, []⟩ = id := by
  funext m
  simp [followedBy]

end Match

/-- The matches of a repetition. A round that takes nothing ends it. -/
def rounds (results : List Char → List Match) (cs : List Char) : List Match :=
  ((results cs).flatMap fun m =>
    if _h : m.rest.length < cs.length then (rounds results m.rest).map m.followedBy else []) ++
    [⟨cs, []⟩]
  termination_by cs.length

namespace Pattern

/-- The matches at the start of a text, in the order in which they are tried. -/
def results : Pattern → List Char → List Match
  | empty, cs => [⟨cs, []⟩]
  | one _, [] => []
  | one p, c :: cs => if p c then [⟨cs, []⟩] else []
  | seq a b, cs => (a.results cs).flatMap fun m => (b.results m.rest).map m.followedBy
  | either a b, cs => a.results cs ++ b.results cs
  | many a, cs => rounds a.results cs
  | capture n a, cs => (a.results cs).map (Match.captured n cs)

theorem results_one_cons (p : Char → Bool) (c : Char) (cs : List Char) :
    (one p).results (c :: cs) = if p c then [⟨cs, []⟩] else [] := rfl

theorem results_seq (a b : Pattern) (cs : List Char) : (seq a b).results cs =
    (a.results cs).flatMap fun m => (b.results m.rest).map m.followedBy := rfl

theorem results_either (a b : Pattern) (cs : List Char) :
    (either a b).results cs = a.results cs ++ b.results cs := rfl

theorem results_many (a : Pattern) (cs : List Char) :
    (many a).results cs = rounds a.results cs := rfl

theorem results_capture (n : Nat) (a : Pattern) (cs : List Char) :
    (capture n a).results cs = (a.results cs).map (Match.captured n cs) := rfl

/-- The match that counts. -/
def first? (a : Pattern) (cs : List Char) : Option Match := (a.results cs).head?

/-- At least one round. -/
def plus (a : Pattern) : Pattern := seq a (many a)

/-- The letters of a word, in any case. -/
def word : List Char → Pattern
  | [] => empty
  | w :: ws => seq (one fun c => c.toLower == w.toLower) (word ws)

/-! ### First matches -/

theorem first?_seq (a b : Pattern) (cs : List Char) : (seq a b).first? cs =
    (a.results cs).findSome? fun m => (b.first? m.rest).map m.followedBy := by
  simp only [first?, results_seq, List.head?_flatMap, List.head?_map]

theorem first?_seq_of_eq {a b : Pattern} {cs : List Char} {m m' : Match}
    (h : a.first? cs = some m) (h' : b.first? m.rest = some m') :
    (seq a b).first? cs = some (m.followedBy m') := by
  obtain ⟨others, heq⟩ := List.head?_eq_some_iff.mp h
  rw [first?_seq, heq, List.findSome?_cons, h']
  rfl

theorem first?_either (a b : Pattern) (cs : List Char) :
    (either a b).first? cs = (a.first? cs).or (b.first? cs) := by
  simp only [first?, results_either, List.head?_append]

theorem first?_capture (n : Nat) (a : Pattern) (cs : List Char) :
    (capture n a).first? cs = (a.first? cs).map (Match.captured n cs) := by
  simp only [first?, results_capture, List.head?_map]

theorem results_word : ∀ (w cs : List Char),
    (word w).results cs = (stripWord? w cs).toList.map fun rest => ⟨rest, []⟩
  | [], cs => rfl
  | w :: ws, [] => rfl
  | w :: ws, c :: cs => by
    rw [word, results_seq, results_one_cons, stripWord?]
    by_cases hc : c.toLower = w.toLower
    · simp [hc, results_word ws cs]
    · simp [hc]

/-! ### Repetitions of one character -/

/-- The first match, and others that all stop before a character with `p`. -/
def Greedy (p : Char → Bool) (ms : List Match) (m : Match) : Prop :=
  ∃ others, ms = m :: others ∧ ∀ o ∈ others, ∃ c tail, o.rest = c :: tail ∧ p c = true

theorem Greedy.map {p : Char → Bool} {ms : List Match} {m : Match} (h : Greedy p ms m)
    (f : Match → Match) (hf : ∀ m, (f m).rest = m.rest) : Greedy p (ms.map f) (f m) := by
  obtain ⟨others, rfl, ho⟩ := h
  refine ⟨others.map f, rfl, fun o hm => ?_⟩
  obtain ⟨o', hm', rfl⟩ := List.mem_map.mp hm
  rw [hf]
  exact ho o' hm'

theorem greedy_many_one (p : Char → Bool) : ∀ cs : List Char,
    Greedy p ((many (one p)).results cs) ⟨cs.dropWhile p, []⟩
  | [] => by
    rw [results_many, rounds]
    exact ⟨[], rfl, by simp⟩
  | c :: cs => by
    rw [results_many, rounds, results_one_cons]
    cases hc : p c with
    | false => exact ⟨[], by simp [hc], by simp⟩
    | true =>
      obtain ⟨others, heq, ho⟩ := greedy_many_one p cs
      rw [results_many] at heq
      refine ⟨others ++ [⟨c :: cs, []⟩], by simp [heq, hc], fun o hm => ?_⟩
      rcases List.mem_append.mp hm with hm | hm
      · exact ho o hm
      · obtain rfl := List.mem_singleton.mp hm
        exact ⟨c, cs, rfl, hc⟩

theorem greedy_plus_one {p : Char → Bool} {c : Char} (hc : p c = true) (cs : List Char) :
    Greedy p ((plus (one p)).results (c :: cs)) ⟨cs.dropWhile p, []⟩ := by
  have := (greedy_many_one p cs).map (Match.followedBy ⟨cs, []⟩) fun _ => rfl
  simpa [plus, results_seq, results_one_cons, hc, Match.followedBy] using this

theorem results_plus_one_of_not {p : Char → Bool} {cs : List Char}
    (h : ∀ c, cs.head? = some c → p c = false) : (plus (one p)).results cs = [] := by
  cases cs with
  | nil => rfl
  | cons c cs => simp [plus, results_seq, results_one_cons, h c rfl]

/-- Where what follows cannot start with a character of a repetition, the repetition takes all. -/
theorem Greedy.first?_seq {p : Char → Bool} {a b : Pattern} {cs : List Char} {m : Match}
    (h : Greedy p (a.results cs) m)
    (hb : ∀ c tail, p c = true → b.results (c :: tail) = []) :
    (seq a b).first? cs = (b.first? m.rest).map m.followedBy := by
  obtain ⟨others, heq, ho⟩ := h
  have hnone : others.findSome? (fun m => (b.first? m.rest).map m.followedBy) = none := by
    refine List.findSome?_eq_none_iff.mpr fun o hm => ?_
    obtain ⟨c, tail, hrest, hc⟩ := ho o hm
    rw [hrest, first?, hb c tail hc]
    rfl
  rw [Pattern.first?_seq, heq, List.findSome?_cons, hnone]
  split
  · next heq => exact heq.symm
  · next heq => exact heq.symm

theorem first?_one_seq (p : Char → Bool) (b : Pattern) (c : Char) (cs : List Char) :
    (seq (one p) b).first? (c :: cs) = if p c then b.first? cs else none := by
  rw [Pattern.first?_seq, results_one_cons]
  split <;> simp

theorem first?_many_of_none {a : Pattern} {cs : List Char} (h : a.first? cs = none) :
    (many a).first? cs = some ⟨cs, []⟩ := by
  have hnil : a.results cs = [] := List.head?_eq_none_iff.mp h
  rw [first?, results_many, rounds, hnil]
  rfl

theorem first?_many_of_some {a : Pattern} {cs : List Char} {m m' : Match} (h : a.first? cs = some m)
    (hlt : m.rest.length < cs.length) (h' : (many a).first? m.rest = some m') :
    (many a).first? cs = some (m.followedBy m') := by
  obtain ⟨others, heq⟩ := List.head?_eq_some_iff.mp h
  rw [first?, results_many] at h'
  rw [first?, results_many, rounds, heq, List.flatMap_cons, dif_pos hlt, List.head?_append,
    List.head?_append, List.head?_map, h']
  rfl

end Pattern

/-! ### The pattern of a clause -/

open Pattern

/-- Blanks, possibly none. -/
def blanksPattern : Pattern := many (one isBlank)

/-- An item. -/
def itemPattern : Pattern := plus (one isItemChar)

/-- A comma with any blanks around it, and an item. -/
def nextItemPattern : Pattern :=
  seq blanksPattern (seq (one (· == ',')) (seq blanksPattern itemPattern))

/-- Items separated by commas. -/
def itemsPattern : Pattern := seq itemPattern (many nextItemPattern)

/-- The word `WHERE`, blanks, and anything. -/
def wherePattern : Pattern :=
  seq (word "WHERE".toList) (seq (plus (one isBlank)) (capture 3 (plus (one fun _ => true))))

/-- The conditions, if there are some. -/
def conditionsPattern : Pattern := seq blanksPattern (either wherePattern empty)

/-- The keyword of an effect. -/
def effectPattern : Pattern :=
  capture 1 (either (word Effect.allow.keyword.toList) (word Effect.deny.keyword.toList))

/-- The items and the conditions of a clause. -/
def bodyPattern : Pattern := seq (capture 2 itemsPattern) conditionsPattern

/-- The grammar of a clause, `(ALLOW|DENY)\s+(item(?:\s*,\s*item)*)\s*(?:WHERE\s+(.+))?` with
`[^\s,]+` for an item. -/
def clausePattern : Pattern := seq effectPattern (seq (plus (one isBlank)) bodyPattern)

theorem first?_itemPattern (cs : List Char) : itemPattern.first? cs =
    if (takeItem cs).1 = [] then none else some ⟨(takeItem cs).2, []⟩ := by
  cases cs with
  | nil => rfl
  | cons c cs =>
    cases hc : isItemChar c with
    | false =>
      rw [first?, itemPattern, results_plus_one_of_not fun x hx => by cases hx; exact hc]
      simp [takeItem, hc]
    | true =>
      obtain ⟨others, heq, -⟩ := greedy_plus_one hc cs
      rw [first?, itemPattern, heq]
      simp [takeItem, hc]

theorem results_itemPattern_blank (c : Char) (tail : List Char) (hc : isBlank c = true) :
    itemPattern.results (c :: tail) = [] :=
  results_plus_one_of_not fun x hx => by cases hx; simp [isItemChar, hc]

/-- Where what follows cannot start with a blank, the blanks are all taken. -/
theorem first?_blanks_seq {b : Pattern} (cs : List Char)
    (hb : ∀ c tail, isBlank c = true → b.results (c :: tail) = []) :
    (seq blanksPattern b).first? cs = b.first? (dropBlanks cs) := by
  rw [blanksPattern, (greedy_many_one isBlank cs).first?_seq hb]
  simp [dropBlanks]

theorem results_comma_blank (b : Pattern) (c : Char) (tail : List Char) (hc : isBlank c = true) :
    (seq (one (· == ',')) b).results (c :: tail) = [] := by
  have hne : c ≠ ',' := by rintro rfl; exact absurd hc (by decide)
  simp [results_seq, results_one_cons, hne]

theorem first?_nextItemPattern (cs : List Char) :
    nextItemPattern.first? cs = (nextItem? cs).map fun p => ⟨p.2, []⟩ := by
  rw [nextItemPattern, first?_blanks_seq cs (results_comma_blank _), nextItem?]
  split
  · next rest heq =>
    rw [heq, first?_one_seq, if_pos (by rfl), first?_blanks_seq rest results_itemPattern_blank,
      first?_itemPattern]
    rcases takeItem (dropBlanks rest) with ⟨_ | ⟨c, item⟩, r⟩ <;> rfl
  · next hne =>
    rcases h : dropBlanks cs with _ | ⟨c, rest⟩
    · rfl
    · have hc : c ≠ ',' := by rintro rfl; exact hne rest h
      rw [first?_one_seq, if_neg (by simpa using hc)]
      rfl

theorem first?_many_nextItemPattern (cs : List Char) :
    (many nextItemPattern).first? cs = some ⟨(moreItems cs).2, []⟩ := by
  cases h : nextItem? cs with
  | none =>
    rw [moreItems_eq_none h, first?_many_of_none (by rw [first?_nextItemPattern, h]; rfl)]
  | some p =>
    obtain ⟨item, rest⟩ := p
    have hlt := length_of_nextItem? h
    rw [moreItems_eq_some h, first?_many_of_some (m := ⟨rest, []⟩)
      (by rw [first?_nextItemPattern, h]; rfl) hlt (first?_many_nextItemPattern rest)]
    simp
termination_by cs.length

theorem first?_itemsPattern (cs : List Char) :
    itemsPattern.first? cs = (takeItems? cs).map fun p => ⟨p.2, []⟩ := by
  rw [takeItems?]
  split
  · next r heq =>
    have hnil : itemPattern.results cs = [] := by
      have := first?_itemPattern cs
      rw [heq, if_pos rfl] at this
      exact List.head?_eq_none_iff.mp this
    rw [first?, itemsPattern, results_seq, hnil]
    rfl
  · next item r hne heq =>
    have hitem : itemPattern.first? cs = some ⟨r, []⟩ := by
      rw [first?_itemPattern, heq, if_neg hne]
    rw [itemsPattern, first?_seq_of_eq hitem (first?_many_nextItemPattern r)]
    simp

/-! ### Conditions -/

theorem first?_word_seq (w : List Char) (b : Pattern) (cs : List Char) :
    (seq (word w) b).first? cs = (stripWord? w cs).bind b.first? := by
  rw [Pattern.first?_seq, results_word]
  rcases stripWord? w cs with _ | rest <;> simp

theorem dropWhile_true : ∀ cs : List Char, cs.dropWhile (fun _ => true) = []
  | [] => rfl
  | c :: cs => by rw [List.dropWhile_cons_of_pos rfl, dropWhile_true cs]

theorem first?_anything {cs : List Char} (h : cs ≠ []) (n : Nat) :
    (capture n (plus (one fun _ => true))).first? cs = some ⟨[], [(n, cs)]⟩ := by
  obtain ⟨c, cs, rfl⟩ := List.exists_cons_of_ne_nil h
  obtain ⟨others, heq, -⟩ := greedy_plus_one (p := fun _ => true) (c := c) rfl cs
  rw [first?_capture, first?, heq, dropWhile_true]
  simp [Match.captured]

theorem results_plus_blank_of_not {c : Char} (hc : isBlank c = false) (cs : List Char) :
    (plus (one isBlank)).results (c :: cs) = [] :=
  results_plus_one_of_not fun x hx => by cases hx; exact hc

/-- In a text that does not end with a blank, what the word `WHERE` captures is what follows it. -/
theorem first?_wherePattern {cs : List Char}
    (hlast : ∀ c, cs.getLast? = some c → isBlank c = false) : wherePattern.first? cs =
      (afterWord? "WHERE".toList cs).map fun conditions => ⟨[], [(3, conditions)]⟩ := by
  rw [wherePattern, first?_word_seq]
  rcases hstrip : stripWord? "WHERE".toList cs with _ | _ | ⟨c, rest⟩
  · rw [afterWord?, hstrip]
    rfl
  · rw [afterWord?, hstrip]
    rfl
  · have hafter : afterWord? "WHERE".toList cs =
        if isBlank c then some (dropBlanks rest) else none := by rw [afterWord?, hstrip]
    rw [hafter, Option.bind_some]
    cases hc : isBlank c with
    | false => simp [Pattern.first?_seq, results_plus_blank_of_not hc]
    | true =>
      rw [hc, if_pos rfl] at hafter
      obtain ⟨others, heq, -⟩ := greedy_plus_one hc rest
      have hblanks : (plus (one isBlank)).first? (c :: rest) = some ⟨dropBlanks rest, []⟩ := by
        rw [first?, heq]
        rfl
      have hne : dropBlanks rest ≠ [] := (startsWith_of_afterWord? hafter).ne_nil hlast
      rw [first?_seq_of_eq hblanks (first?_anything hne 3)]
      simp

theorem first?_blanksPattern (cs : List Char) :
    blanksPattern.first? cs = some ⟨dropBlanks cs, []⟩ := by
  obtain ⟨others, heq, -⟩ := greedy_many_one isBlank cs
  rw [first?, blanksPattern, heq]
  rfl

/-- Whether there are conditions or not, the pattern goes on. -/
theorem first?_conditionsPattern {cs : List Char}
    (hlast : ∀ c, cs.getLast? = some c → isBlank c = false) : ∃ stop,
      conditionsPattern.first? cs =
        some ⟨stop, (afterWord? "WHERE".toList (dropBlanks cs)).toList.map (Prod.mk 3)⟩ := by
  obtain ⟨b, -, hcs⟩ := exists_blanks_append cs
  have hwhere : wherePattern.first? (dropBlanks cs) = _ :=
    first?_wherePattern (last_of_append (hcs ▸ hlast))
  obtain ⟨stop, h⟩ : ∃ stop, (either wherePattern empty).first? (dropBlanks cs) =
      some ⟨stop, (afterWord? "WHERE".toList (dropBlanks cs)).toList.map (Prod.mk 3)⟩ := by
    rw [first?_either, hwhere]
    rcases afterWord? "WHERE".toList (dropBlanks cs) with _ | conditions
    · exact ⟨dropBlanks cs, rfl⟩
    · exact ⟨[], rfl⟩
  exact ⟨stop, by rw [conditionsPattern, first?_seq_of_eq (first?_blanksPattern cs) h]; simp⟩

/-! ### Clauses -/

theorem results_bodyPattern_of_none {cs : List Char} (h : takeItems? cs = none) :
    bodyPattern.results cs = [] := by
  have hnil : itemsPattern.results cs = [] := by
    have := first?_itemsPattern cs
    rw [h] at this
    exact List.head?_eq_none_iff.mp this
  simp [bodyPattern, results_seq, results_capture, hnil]

theorem results_bodyPattern_blank (c : Char) (tail : List Char) (hc : isBlank c = true) :
    bodyPattern.results (c :: tail) = [] := by
  refine results_bodyPattern_of_none (Option.not_isSome_iff_eq_none.mp fun h => ?_)
  obtain ⟨x, hx, hitem⟩ := takeItems?_isSome_iff.mp h
  cases hx
  simp [isItemChar, hc] at hitem

theorem first?_bodyPattern {cs tail : List Char} {items : List (List Char)}
    (h : takeItems? cs = some (items, tail))
    (hlast : ∀ c, tail.getLast? = some c → isBlank c = false) : ∃ stop,
      bodyPattern.first? cs =
        some ⟨stop, (afterWord? "WHERE".toList (dropBlanks tail)).toList.map (Prod.mk 3) ++
          [(2, cs.take (cs.length - tail.length))]⟩ := by
  have hitems : (capture 2 itemsPattern).first? cs =
      some ⟨tail, [(2, cs.take (cs.length - tail.length))]⟩ := by
    rw [first?_capture, first?_itemsPattern, h]
    rfl
  obtain ⟨stop, hconditions⟩ := first?_conditionsPattern hlast
  exact ⟨stop, by rw [bodyPattern, first?_seq_of_eq hitems hconditions]; rfl⟩

/-- Behind an effect, the blanks are all taken. -/
theorem first?_plus_blank_seq {c : Char} (hc : isBlank c = true) (cs : List Char) :
    (seq (plus (one isBlank)) bodyPattern).first? (c :: cs) =
      bodyPattern.first? (dropBlanks cs) := by
  rw [(greedy_plus_one hc cs).first?_seq results_bodyPattern_blank]
  simp [dropBlanks]

theorem first?_effectPattern {e : Effect} {cs rest : List Char} (h : StartsWith e.keyword cs rest) :
    ∃ w b, cs = w ++ b ++ rest ∧ w.map Char.toLower = e.keyword.toList.map Char.toLower ∧
      b ≠ [] ∧ Blanks b ∧ effectPattern.first? cs = some ⟨b ++ rest, [(1, w)]⟩ := by
  obtain ⟨w, b, hcs, hw, hne, hb, hstrip⟩ := h.stripWord?_eq
  refine ⟨w, b, hcs, hw, hne, hb, ?_⟩
  have hkeyword : (either (word Effect.allow.keyword.toList)
      (word Effect.deny.keyword.toList)).first? cs = some ⟨b ++ rest, []⟩ := by
    rw [first?_either, first?, first?, results_word, results_word]
    cases e with
    | allow => rw [hstrip]; rfl
    | deny => rw [stripWord?_allow_eq_none hstrip, hstrip]; rfl
  rw [effectPattern, first?_capture, hkeyword]
  simp [Match.captured, hcs]

theorem exists_of_mem_effectPattern {cs : List Char} {m : Match}
    (h : m ∈ effectPattern.results cs) : ∃ e : Effect,
      stripWord? e.keyword.toList cs = some m.rest := by
  simp only [effectPattern, results_capture, results_either, results_word, List.mem_map, List.mem_append,
    Option.mem_toList] at h
  obtain ⟨m, ⟨rest, h, rfl⟩ | ⟨rest, h, rfl⟩, rfl⟩ := h
  · exact ⟨.allow, h⟩
  · exact ⟨.deny, h⟩

/-- **The pattern on a clause**: the keyword is captured, the longest run of items, and what follows
the word `WHERE`. -/
theorem first?_clausePattern {e : Effect} {cs rest text tail : List Char} {items : List (List Char)}
    (h : StartsWith e.keyword cs rest) (htake : takeItems? rest = some (items, tail))
    (htext : rest = text ++ tail) (hlast : ∀ c, tail.getLast? = some c → isBlank c = false) :
    ∃ m w, clausePattern.first? cs = some m ∧
      w.map Char.toLower = e.keyword.toList.map Char.toLower ∧ m.capture? 1 = some w ∧
        m.capture? 2 = some text ∧ m.capture? 3 = afterWord? "WHERE".toList (dropBlanks tail) := by
  obtain ⟨w, b, hcs, hw, hne, hb, heffect⟩ := first?_effectPattern h
  obtain ⟨c, b, rfl⟩ := List.exists_cons_of_ne_nil hne
  obtain ⟨stop, hbody⟩ := first?_bodyPattern htake hlast
  have hrest : dropBlanks (b ++ rest) = rest := by
    obtain ⟨x, hx, hitem⟩ := takeItems?_isSome_iff.mp (Option.isSome_iff_exists.mpr ⟨_, htake⟩)
    rw [dropBlanks_append fun y hy => hb y (List.mem_cons_of_mem c hy)]
    refine dropBlanks_eq_self fun y hy => ?_
    rw [hx] at hy
    cases hy
    exact (isItemChar_iff.mp hitem).1
  have htake : rest.take (rest.length - tail.length) = text := by simp [htext]
  have hblanks := first?_plus_blank_seq (hb c List.mem_cons_self) (b ++ rest)
  rw [hrest, hbody, htake] at hblanks
  refine ⟨_, w, first?_seq_of_eq heffect hblanks, hw, ?_⟩
  rcases afterWord? "WHERE".toList (dropBlanks tail) with _ | conditions
  · exact ⟨rfl, rfl, rfl⟩
  · exact ⟨rfl, rfl, rfl⟩

/-- **The pattern on anything else** does not match. -/
theorem first?_clausePattern_eq_none {cs : List Char} (h : ∀ e rest, ¬ OpensWith e cs rest) :
    clausePattern.first? cs = none := by
  rw [clausePattern, Pattern.first?_seq]
  refine List.findSome?_eq_none_iff.mpr fun m hm => ?_
  obtain ⟨e, hstrip⟩ := exists_of_mem_effectPattern hm
  rw [Option.map_eq_none_iff]
  rcases hrest : m.rest with _ | ⟨c, r⟩
  · rfl
  · cases hc : isBlank c with
    | false =>
      rw [Pattern.first?_seq, results_plus_blank_of_not hc]
      rfl
    | true =>
      have hafter : afterWord? e.keyword.toList cs = some (dropBlanks r) := by
        rw [afterWord?, hstrip, hrest]
        exact if_pos hc
      rw [first?_plus_blank_seq hc, first?, results_bodyPattern_of_none]
      · rfl
      · refine Option.not_isSome_iff_eq_none.mp fun hsome => ?_
        obtain ⟨x, hx, hitem⟩ := takeItems?_isSome_iff.mp hsome
        exact h e (dropBlanks r) ⟨startsWith_of_afterWord? hafter, x, hx, isItemChar_iff.mp hitem⟩

end Entitlements
