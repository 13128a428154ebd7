import SourceCoding.Proofs.Escapes

/-!
# YAML scalars are unambiguous

The first character of a scalar tells its style, and each style has an end of its own: a plain
scalar ends with its line, a text in quotes at a quote that is no part of a longer mark, and a block
before the next line that is neither indented nor empty. The breaks at the end of a block are the
one thing that its lines do not tell; they are told by its heading.

## Main definitions

* `Yaml.Style`, `Yaml.styleOf`: the styles of a scalar, and that of a text
* `Yaml.unit`, `Yaml.Ends`: a character of an indented text, and that no further one is ahead
* `Yaml.heading`, `Yaml.ended`: the two parts of a literal block

## Main results

* `Yaml.scalar_eq`: a text is written in its style
* `Yaml.indented_inj`: an indented text tells the text
* `Yaml.unambiguous_scalar`: a scalar is unambiguous before a line that is not indented as far
-/

namespace SourceCoding.Yaml

/-! ## Styles -/

/-- The styles of a scalar. -/
inductive Style where
  /-- As it is. -/
  | plain
  /-- Between single quotes. -/
  | single
  /-- Between double quotes. -/
  | double
  /-- In lines of its own. -/
  | literal

/-- **The style of a text.** -/
def styleOf (s : List Char) : Style :=
  if s.contains '\n' then
    if literalAllowed s then .literal else .double
  else if plainAllowed s && !readsAsOther s then .plain
  else if singleAllowed s then .single
  else .double

/-- A text in a style, up to the end of its line. -/
def Style.write (indent : Nat) (s : List Char) : Style → List Char
  | .plain => s ++ ['\n']
  | .single => Yaml.single indent s ++ ['\n']
  | .double => Yaml.double s ++ ['\n']
  | .literal => Yaml.literal indent s

/-- The style by the first character. -/
def Style.ofHead : List Char → Style
  | '|' :: _ => .literal
  | '"' :: _ => .double
  | '\'' :: _ => .single
  | _ => .plain

variable {n : Nat} {s t u v : List Char} {c d : Char} {write : Char → List Char} {fresh : Bool}

/-- **A text is written in its style.** -/
theorem scalar_eq (n : Nat) (s : List Char) : scalar n s = (styleOf s).write n s := by
  unfold scalar styleOf
  split_ifs <;> rfl

theorem not_mem_of_styleOf_plain (h : styleOf s = .plain) : '\n' ∉ s := by
  unfold styleOf at h
  split_ifs at h with hline
  simpa using hline

/-- A plain scalar starts with a character that is no mark of another style. -/
theorem exists_head_of_styleOf_plain (h : styleOf s = .plain) :
    ∃ c rest, s = c :: rest ∧ isIndicator c = false := by
  unfold styleOf at h
  split_ifs at h with hline hliteral hplain
  cases s with
  | nil => simp [readsAsOther] at hplain
  | cons c rest =>
    refine ⟨c, rest, rfl, ?_⟩
    simp only [plainAllowed, hasOuterIndicator, Bool.and_eq_true, Bool.not_eq_true',
      Bool.or_eq_false_iff] at hplain
    obtain ⟨⟨⟨-, -, hc, -⟩, -⟩, -⟩ := hplain
    exact hc

theorem ofHead_cons (hliteral : c ≠ '|') (hdouble : c ≠ '"') (hsingle : c ≠ '\'')
    (rest : List Char) : Style.ofHead (c :: rest) = .plain := by
  simp [Style.ofHead, hliteral, hdouble, hsingle]

/-- **The first character of a scalar tells its style.** -/
theorem ofHead_scalar (n : Nat) (s u : List Char) : Style.ofHead (scalar n s ++ u) = styleOf s := by
  rw [scalar_eq]
  cases hs : styleOf s with
  | single => rfl
  | double => rfl
  | literal => rfl
  | plain =>
    obtain ⟨c, rest, rfl, hc⟩ := exists_head_of_styleOf_plain hs
    have hne : ∀ d, isIndicator d = true → c ≠ d := by
      rintro d hd rfl
      simp [hc] at hd
    exact ofHead_cons (hne '|' (by decide)) (hne '"' (by decide)) (hne '\'' (by decide)) _

/-! ## Indented texts -/

/-- **A character of an indented text**, after the indentation where it starts a line. -/
def unit (n : Nat) (write : Char → List Char) (fresh : Bool) (c : Char) : List Char :=
  if isBreak c then [c] else (if fresh then List.replicate n ' ' else []) ++ write c

/-- **No further character of an indented text is ahead.** -/
def Ends (n : Nat) (write : Char → List Char) (fresh : Bool) (u : List Char) : Prop :=
  ∀ c rest, u ≠ unit n write fresh c ++ rest

/-- A line is about to start after a text. -/
def freshAfter (fresh : Bool) (s : List Char) : Bool := (s.getLast?.map isBreak).getD fresh

theorem freshAfter_cons (fresh : Bool) (c : Char) (s : List Char) :
    freshAfter fresh (c :: s) = freshAfter (isBreak c) s := by
  unfold freshAfter
  cases hs : s.getLast? <;> simp [List.getLast?_cons, hs]

theorem freshAfter_false (s : List Char) : freshAfter false s = s.getLast?.any isBreak := by
  unfold freshAfter
  cases s.getLast? <;> rfl

theorem freshAfter_concat (fresh : Bool) (s : List Char) (c : Char) :
    freshAfter fresh (s ++ [c]) = isBreak c := by
  simp [freshAfter]

theorem indented_cons (n : Nat) (write : Char → List Char) (fresh : Bool) (c : Char)
    (s : List Char) : indented n write fresh (c :: s) =
      unit n write fresh c ++ indented n write (isBreak c) s := by
  rw [indented, unit]
  split_ifs with hc <;> simp [hc]

/-- What is written for the characters of an indented text is unambiguous, and breaks are written as
they are. -/
structure Lined (write : Char → List Char) : Prop where
  /-- The characters can be told from what is written. -/
  unambiguous : Unambiguous (fun _ => True) write (fun _ => True)
  /-- Breaks are written as they are. -/
  of_isBreak : ∀ c, isBreak c = true → write c = [c]

theorem unit_of_break (hc : isBreak c = true) : unit n write fresh c = [c] := if_pos hc

theorem unit_of_not_break (hc : isBreak c = false) :
    unit n write true c = List.replicate n ' ' ++ write c := by
  simp [unit, hc]

theorem unit_false (h : Lined write) (n : Nat) (c : Char) : unit n write false c = write c := by
  cases hc : isBreak c with
  | true => rw [unit_of_break hc, h.of_isBreak c hc]
  | false => simp [unit, hc]

/-- No break stands where a line is indented. -/
theorem replicate_ne_break (hn : 0 < n) (hc : isBreak c = true) :
    List.replicate n ' ' ++ u ≠ c :: v := by
  obtain ⟨n, rfl⟩ := Nat.exists_eq_succ_of_ne_zero (Nat.ne_of_gt hn)
  rintro heq
  rw [List.replicate_succ, List.cons_append] at heq
  obtain ⟨rfl, -⟩ := List.cons.inj heq
  exact absurd hc (by decide)

theorem Lined.unambiguous_unit (h : Lined write) (hn : 0 < n) (fresh : Bool) :
    Unambiguous (fun _ => True) (unit n write fresh) (fun _ => True) := by
  cases fresh with
  | false => exact h.unambiguous.of_image (f := id) fun c _ => ⟨c, trivial, rfl, unit_false h n c⟩
  | true =>
    intro c d u v _ _ _ _ heq
    -- A break is not indented and all else is, so their first characters differ.
    cases hc : isBreak c <;> cases hd : isBreak d
    · rw [unit_of_not_break hc, unit_of_not_break hd, List.append_assoc, List.append_assoc] at heq
      exact h.unambiguous trivial trivial trivial trivial (List.append_cancel_left heq)
    · rw [unit_of_not_break hc, unit_of_break hd, List.append_assoc] at heq
      exact absurd heq (replicate_ne_break hn hd)
    · rw [unit_of_break hc, unit_of_not_break hd, List.append_assoc] at heq
      exact absurd heq.symm (replicate_ne_break hn hc)
    · rw [unit_of_break hc, unit_of_break hd] at heq
      exact List.cons.inj heq

/-- **An indented text tells the text**, where no further character is ahead. -/
theorem indented_inj (h : Lined write) (hn : 0 < n) (hs : Ends n write (freshAfter fresh s) u)
    (ht : Ends n write (freshAfter fresh t) v)
    (heq : indented n write fresh s ++ u = indented n write fresh t ++ v) : s = t ∧ u = v := by
  -- Induction on one of the texts. Whether the next character starts a line depends on the one
  -- before it, which is the same in both.
  induction s generalizing t fresh with
  | nil =>
    cases t with
    | nil => exact ⟨rfl, heq⟩
    | cons d t =>
      rw [indented_cons, List.append_assoc] at heq
      exact absurd heq (hs d _)
  | cons c s ih =>
    cases t with
    | nil =>
      rw [indented_cons, List.append_assoc] at heq
      exact absurd heq.symm (ht c _)
    | cons d t =>
      rw [freshAfter_cons] at hs ht
      rw [indented_cons, indented_cons, List.append_assoc, List.append_assoc] at heq
      obtain ⟨rfl, hrest⟩ := h.unambiguous_unit hn fresh trivial trivial trivial trivial heq
      obtain ⟨rfl, rfl⟩ := ih hs ht hrest
      exact ⟨rfl, rfl⟩

/-! ## Plain scalars -/

/-- A text without a line feed is unambiguous as a line. -/
theorem unambiguous_line :
    Unambiguous (fun s : List Char => '\n' ∉ s) (fun s => s ++ ['\n']) (fun _ => True) := by
  have hline : Unambiguous (fun s : List Char => '\n' ∉ s) id
      (Unambiguous.PastClass (· ≠ '\n')) := by
    refine .of_class (fun s hs c hc => ?_) fun _ _ _ _ h => h
    simp only [ne_eq, decide_eq_true_eq]
    rintro rfl
    exact hs hc
  exact hline.closed_by ['\n'] fun u _ => Unambiguous.pastClass_cons (by decide) u

/-! ## Texts in single quotes -/

/-- A character in single quotes. -/
def quoteTwice (c : Char) : List Char := if c = '\'' then ['\'', '\''] else [c]

theorem lined_quoteTwice : Lined quoteTwice := by
  refine ⟨?_, fun c hc => ?_⟩
  · intro c d u v _ _ _ _ heq
    unfold quoteTwice at heq
    split_ifs at heq with hc hd hd
    · simp_all
    · simp at heq
      exact absurd heq.1.symm hd
    · simp at heq
      exact absurd heq.1 hc
    · simpa using heq
  · have hne : c ≠ '\'' := by
      rintro rfl
      exact absurd hc (by decide)
    exact if_neg hne

/-- **A quote at the end of a line ends a text in single quotes**: it is no part of a longer
mark. -/
theorem ends_quote (hn : 0 < n) (fresh : Bool) (u : List Char) : Ends n quoteTwice fresh
    ((if fresh then List.replicate n ' ' else []) ++ '\'' :: '\n' :: u) := by
  -- A quote that is meant is written twice, and here a line feed follows.
  have hquote : ∀ c rest, '\'' :: '\n' :: u ≠ quoteTwice c ++ rest := by
    intro c rest
    unfold quoteTwice
    split_ifs with hc
    · simp
    · simp [Ne.symm hc]
  intro c rest heq
  cases fresh with
  | false =>
    rw [unit_false lined_quoteTwice] at heq
    exact hquote c rest heq
  | true =>
    cases hc : isBreak c with
    | true =>
      rw [unit_of_break hc] at heq
      exact replicate_ne_break hn hc heq
    | false =>
      rw [unit_of_not_break hc, List.append_assoc] at heq
      exact hquote c rest (List.append_cancel_left heq)

/-- **A text in single quotes is unambiguous** as a line. -/
theorem unambiguous_single (hn : 0 < n) :
    Unambiguous (fun _ => True) (fun s => single n s ++ ['\n']) (fun _ => True) := by
  intro s t u v _ _ _ _ heq
  have hsingle : ∀ s u, single n s ++ ['\n'] ++ u = '\'' :: (indented n quoteTwice false s ++
      ((if freshAfter false s then List.replicate n ' ' else []) ++ '\'' :: '\n' :: u)) := by
    intro s u
    simp only [single, freshAfter_false, List.cons_append, List.append_assoc]
    rfl
  rw [hsingle, hsingle] at heq
  obtain ⟨rfl, hrest⟩ := indented_inj lined_quoteTwice hn (ends_quote hn _ u) (ends_quote hn _ v)
    (List.cons.inj heq).2
  exact ⟨rfl, by simpa using hrest⟩

/-! ## Literal blocks -/

/-- **The heading of a literal block**, after its mark. -/
def heading (s : List Char) : List Char :=
  (if s.head?.any (fun c => isSpace c || isBreak c) then ['2'] else []) ++ chomping s

/-- **The lines of a literal block**: the text, with a break at its end. -/
def ended (s : List Char) : List Char := if freshAfter false s then s else s ++ ['\n']

theorem lined_singleton : Lined fun c => [c] :=
  ⟨fun _ _ _ _ _ _ _ _ heq => List.cons.inj heq, fun _ _ => rfl⟩

theorem freshAfter_ended (s : List Char) : freshAfter true (ended s) = true := by
  unfold ended
  split_ifs with h
  · unfold freshAfter at h ⊢
    cases hs : s.getLast? with
    | none => rfl
    | some c => simpa [hs] using h
  · rw [freshAfter_concat]
    rfl

theorem indented_concat_break (n : Nat) (write : Char → List Char) (fresh : Bool) (s : List Char) :
    indented n write fresh (s ++ ['\n']) = indented n write fresh s ++ ['\n'] := by
  induction s generalizing fresh with
  | nil => rfl
  | cons c s ih => rw [List.cons_append, indented_cons, indented_cons, ih, List.append_assoc]

theorem literal_eq (n : Nat) (s : List Char) : literal n s =
    '|' :: (heading s ++ ['\n'] ++ indented n (fun c => [c]) true (ended s)) := by
  unfold literal heading ended
  rw [← freshAfter_false]
  cases freshAfter false s <;> simp [indented_concat_break]

/-- What is said about the breaks at the end depends on whether there is one. -/
theorem chomping_cases (s : List Char) : freshAfter false s = false ∧ chomping s = ['-'] ∨
    freshAfter false s = true ∧ (chomping s = ['+'] ∨ chomping s = []) := by
  rcases List.eq_nil_or_concat s with rfl | ⟨before, c, rfl⟩
  · exact .inl ⟨rfl, rfl⟩
  · rw [List.concat_eq_append, freshAfter_concat]
    cases hc : isBreak c with
    | false => exact .inl ⟨rfl, by simp [chomping, hc]⟩
    | true =>
      refine .inr ⟨rfl, ?_⟩
      cases hbefore : before.reverse with
      | nil => simp [chomping, hc, hbefore]
      | cons d rest => cases hd : isBreak d <;> simp [chomping, hc, hbefore, hd]

theorem lineFeed_not_mem_heading (s : List Char) : '\n' ∉ heading s := by
  unfold heading
  rcases chomping_cases s with ⟨-, h⟩ | ⟨-, h | h⟩ <;> rw [h] <;> split_ifs <;> decide

/-- **The heading tells whether the text ends in a break.** -/
theorem mem_heading_iff (s : List Char) : '-' ∈ heading s ↔ freshAfter false s = false := by
  unfold heading
  rcases chomping_cases s with ⟨hs, h⟩ | ⟨hs, h | h⟩ <;> rw [h, hs] <;> split_ifs <;> decide

/-- **A literal block is unambiguous** before a line that is not indented as far. -/
theorem unambiguous_literal (hn : 0 < n) :
    Unambiguous (fun _ => True) (literal n) (Ends n (fun c => [c]) true) := by
  intro s t u v _ _ hu hv heq
  rw [literal_eq, literal_eq, List.cons_append, List.cons_append, List.append_assoc _ _ u,
    List.append_assoc _ _ v] at heq
  obtain ⟨hheading, hlines⟩ := unambiguous_line (lineFeed_not_mem_heading s)
    (lineFeed_not_mem_heading t) trivial trivial (List.cons.inj heq).2
  obtain ⟨hended, rfl⟩ := indented_inj lined_singleton hn (by rwa [freshAfter_ended])
    (by rwa [freshAfter_ended]) hlines
  have hfresh : freshAfter false s = freshAfter false t := by
    have hiff := (mem_heading_iff s).symm.trans (hheading ▸ mem_heading_iff t)
    cases hs : freshAfter false s <;> cases ht : freshAfter false t <;> simp [hs, ht] at hiff ⊢
  unfold ended at hended
  rw [hfresh] at hended
  split_ifs at hended
  · exact ⟨hended, rfl⟩
  · exact ⟨List.append_cancel_right hended, rfl⟩

/-! ## Scalars -/

/-- **A scalar is unambiguous** before a line that is not indented as far. -/
theorem unambiguous_scalar (hn : 0 < n) :
    Unambiguous (fun _ => True) (scalar n) (Ends n (fun c => [c]) true) := by
  refine .of_styles (fun s u _ => ofHead_scalar n s u) fun style => ?_
  have hscalar : ∀ s, styleOf s = style → scalar n s = style.write n s := by
    rintro s rfl
    exact scalar_eq n s
  cases style with
  | plain =>
    exact unambiguous_line.anywhere.of_image (f := id) fun s hs =>
      ⟨s, not_mem_of_styleOf_plain hs.2, rfl, hscalar s hs.2⟩
  | single =>
    exact (unambiguous_single hn).anywhere.of_image (f := id) fun s hs =>
      ⟨s, trivial, rfl, hscalar s hs.2⟩
  | double =>
    exact (unambiguous_double.closed_by ['\n'] fun _ _ => trivial).of_image (f := id) fun s hs =>
      ⟨s, trivial, rfl, hscalar s hs.2⟩
  | literal =>
    exact (unambiguous_literal hn).of_image (f := id) fun s hs =>
      ⟨s, trivial, rfl, hscalar s hs.2⟩

end SourceCoding.Yaml
