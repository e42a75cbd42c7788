import ClientGen.Proofs.Document.Display
import ClientGen.Proofs.TypeScript.TypeTree
/-!
# Reading type expressions

A text is cut into tokens and these are read from left to right, with the brackets that are open on a stack. The
operands of a type are collected in a row, in which `[]` belongs to the operand before it; `TypeTree.ofRow` takes those
that `&` joins together before those that `|` joins.
-/

namespace ClientGen.TypeReader

open Text TypeTree

/-! ## Tokens -/

inductive Token where
  /-- A name, a keyword or a number. -/
  | word (t : Text)
  | quoted (t : Text)
  | mark (c : Char)
deriving DecidableEq, Repr

/-- The tokens, newest first, with one more character in the newest. -/
def grow (c : Char) : List Token → List Token
  | .word t :: ts => .word (t ++ [c]) :: ts
  | .quoted t :: ts => .quoted (t ++ [c]) :: ts
  | ts => ts

/-- Where a scan stands between two characters. -/
inductive Mode where
  | between
  | word
  | quoted
  /-- In a literal, behind a backslash. -/
  | escaped
deriving DecidableEq, Repr

/-- A scan, with its tokens from the newest to the oldest. -/
structure Scan where
  tokens : List Token
  mode : Mode

/-- Whether a character is a token by itself. -/
def isMark (c : Char) : Bool := "()[]\x7b\x7d<>,;:?&|".toList.contains c

/-- A character that belongs to no word and no literal. -/
def outside (tokens : List Token) (c : Char) : Option Scan :=
  if c = '\'' then some ⟨.quoted [] :: tokens, .quoted⟩
  else if c = ' ' then some ⟨tokens, .between⟩
  else if isMark c then some ⟨.mark c :: tokens, .between⟩
  else none

def Scan.step (s : Scan) (c : Char) : Option Scan :=
  match s.mode with
  | .between => if isNumberChar c then some ⟨.word [c] :: s.tokens, .word⟩ else outside s.tokens c
  | .word => if isNumberChar c then some ⟨grow c s.tokens, .word⟩ else outside s.tokens c
  | .quoted =>
    if c = '\'' then some ⟨s.tokens, .between⟩
    else if c = '\\' then some ⟨s.tokens, .escaped⟩
    else if c = '\n' then none
    else some ⟨grow c s.tokens, .quoted⟩
  | .escaped => if c = '\\' || c = '\'' then some ⟨grow c s.tokens, .quoted⟩ else none

def tokens? (t : Text) : Option (List Token) :=
  match t.foldlM Scan.step ⟨[], .between⟩ with
  | some ⟨ts, .between⟩ | some ⟨ts, .word⟩ => some ts.reverse
  | _ => none

/-- A text that is cut into tokens and ends neither in a word nor in a literal. -/
def Closes (t : Text) (ts : List Token) : Prop :=
  ∀ before, t.foldlM Scan.step ⟨before, .between⟩ = some ⟨ts.reverse ++ before, .between⟩

/-- A text that is cut into tokens and may end in a word. -/
def Scans (t : Text) (ts : List Token) : Prop :=
  ∀ before, ∃ mode, (mode = .between ∨ mode = .word) ∧
    t.foldlM Scan.step ⟨before, .between⟩ = some ⟨ts.reverse ++ before, mode⟩

section Scans

variable {a b : Text} {ts us : List Token}

theorem Closes.scans (h : Closes a ts) : Scans a ts := fun before => ⟨.between, .inl rfl, h before⟩

theorem Closes.append (ha : Closes a ts) (hb : Closes b us) : Closes (a ++ b) (ts ++ us) := by
  intro before
  rw [List.foldlM_append, ha before, List.reverse_append, List.append_assoc]
  exact hb _

theorem Closes.append_scans (ha : Closes a ts) (hb : Scans b us) : Scans (a ++ b) (ts ++ us) := by
  intro before
  obtain ⟨mode, hmode, hrun⟩ := hb (ts.reverse ++ before)
  refine ⟨mode, hmode, ?_⟩
  rw [List.foldlM_append, ha before, List.reverse_append, List.append_assoc]
  exact hrun

private theorem step_word {c : Char} (h : isNumberChar c = false) (ts : List Token) :
    Scan.step ⟨ts, .word⟩ c = Scan.step ⟨ts, .between⟩ c := by
  simp [Scan.step, h]

theorem Scans.append_closes (ha : Scans a ts) (hb : Closes b us) (h : b.head?.any (!isNumberChar ·) = true) :
    Closes (a ++ b) (ts ++ us) := by
  intro before
  obtain ⟨mode, hmode, hrun⟩ := ha before
  rw [List.foldlM_append, hrun, List.reverse_append, List.append_assoc]
  refine Eq.trans ?_ (hb (ts.reverse ++ before))
  rcases hmode with rfl | rfl
  · rfl
  · cases b with
    | nil => cases h
    | cons c b =>
      have hc : isNumberChar c = false := by simpa using h
      exact congrArg (· >>= fun s => b.foldlM Scan.step s) (step_word hc _)

theorem Scans.tokens? (h : Scans a ts) : tokens? a = some ts := by
  obtain ⟨mode, hmode, hrun⟩ := h []
  unfold TypeReader.tokens?
  rw [hrun]
  rcases hmode with rfl | rfl <;> simp

private theorem foldlM_word (before : List Token) (t u : Text) (h : ∀ c ∈ u, isNumberChar c = true) :
    u.foldlM Scan.step ⟨.word t :: before, .word⟩ = some ⟨.word (t ++ u) :: before, .word⟩ := by
  induction u generalizing t with
  | nil => simp
  | cons c u ih =>
    have hstep : Scan.step ⟨.word t :: before, .word⟩ c = some ⟨.word (t ++ [c]) :: before, .word⟩ := by
      simp [Scan.step, grow, h c List.mem_cons_self]
    rw [List.foldlM_cons, hstep]
    simpa using ih (t ++ [c]) fun c hc => h c (List.mem_cons_of_mem _ hc)

theorem Scans.word {t : Text} (h : IsNumberWord t) : Scans t [.word t] := by
  intro before
  refine ⟨.word, .inr rfl, ?_⟩
  obtain ⟨c, u, rfl⟩ := List.exists_cons_of_ne_nil h.ne_nil
  have hstep : Scan.step ⟨before, .between⟩ c = some ⟨.word [c] :: before, .word⟩ := by
    simp [Scan.step, h.chars c List.mem_cons_self]
  rw [List.foldlM_cons, hstep]
  exact foldlM_word before [c] u fun c hc => h.chars c (List.mem_cons_of_mem _ hc)

private theorem foldlM_escapeLiteral (before : List Token) (t u : Text) (h : '\n' ∉ u) :
    (escapeLiteral u).foldlM Scan.step ⟨.quoted t :: before, .quoted⟩ =
      some ⟨.quoted (t ++ u) :: before, .quoted⟩ := by
  induction u generalizing t with
  | nil => simp [escapeLiteral]
  | cons c u ih =>
    rw [List.mem_cons, not_or] at h
    have hrest := ih (t ++ [c]) h.2
    have hc : (if c = '\\' || c = '\'' then ['\\', c] else [c]).foldlM Scan.step ⟨.quoted t :: before, .quoted⟩ =
        some ⟨.quoted (t ++ [c]) :: before, .quoted⟩ := by
      split
      · next hc => simp [Scan.step, grow, hc]
      · next hc =>
        simp only [Bool.or_eq_true, decide_eq_true_eq, not_or] at hc
        simp [Scan.step, grow, hc, Ne.symm h.1]
    rw [escapeLiteral, List.flatMap_cons, List.foldlM_append, hc]
    simpa [escapeLiteral] using hrest

theorem Closes.literal {t : Text} (h : '\n' ∉ t) : Closes (Text.literal t) [.quoted t] := by
  intro before
  have hbody := foldlM_escapeLiteral before [] t h
  rw [Text.literal, List.foldlM_append, List.foldlM_cons]
  have hopen : Scan.step ⟨before, .between⟩ '\'' = some ⟨.quoted [] :: before, .quoted⟩ := rfl
  rw [hopen]
  change (List.foldlM Scan.step _ (escapeLiteral t) >>= _) = _
  rw [hbody]
  rfl

end Scans

/-! ## Types -/

/-- An open bracket, with the row in front of it from the newest operand to the oldest. -/
inductive Frame where
  | group (row : Row)
  /-- The arguments of a type, behind those that were read. -/
  | argument (row : Row) (head : Text) (before : List TypeTree)
  /-- The type of a member of an object, behind those that were read. -/
  | member (row : Row) (before : List (Member TypeTree)) (name : Text) (isOptional : Bool)

/-- What is expected next. -/
inductive Stand where
  | operand
  /-- An operator or the end of what is open. -/
  | operator
  | index
  /-- The name of a member or the end of the object. -/
  | name (before : List (Member TypeTree))
  | colon (before : List (Member TypeTree)) (name : Text) (isOptional : Bool)

structure State where
  frames : List Frame
  /-- The operands of the type that is read, from the newest to the oldest. -/
  row : Row
  stand : Stand

def operandStep (frames : List Frame) (row : Row) : Token → Option State
  | .word t => some ⟨frames, some (.word t) :: row, .operator⟩
  | .quoted t => some ⟨frames, some (.quoted t) :: row, .operator⟩
  | .mark '(' => some ⟨.group row :: frames, [], .operand⟩
  | .mark '\x7b' => some ⟨frames, row, .name []⟩
  | .mark _ => none

def endStep (type : TypeTree) (frames : List Frame) : Frame → Token → Option State
  | .group row, .mark ')' => some ⟨frames, some type :: row, .operator⟩
  | .argument row head before, .mark ',' => some ⟨.argument row head (before ++ [type]) :: frames, [], .operand⟩
  | .argument row head before, .mark '>' => some ⟨frames, some (.applied head (before ++ [type])) :: row, .operator⟩
  | .member row before name isOptional, .mark ';' => some ⟨frames, row, .name (before ++ [⟨name, isOptional, type⟩])⟩
  | .member row before name isOptional, .mark '\x7d' =>
    some ⟨frames, some (.object (before ++ [⟨name, isOptional, type⟩])) :: row, .operator⟩
  | _, _ => none

def operatorStep (frames : List Frame) (row : Row) : Token → Option State
  | .mark '&' => some ⟨frames, row, .operand⟩
  | .mark '|' => some ⟨frames, none :: row, .operand⟩
  | .mark '[' => some ⟨frames, row, .index⟩
  | .mark '<' =>
    match row with
    | some (.word head) :: row => some ⟨.argument row head [] :: frames, [], .operand⟩
    | _ => none
  | token =>
    match frames with
    | frame :: frames => endStep (ofRow row.reverse) frames frame token
    | [] => none

def State.step (s : State) (token : Token) : Option State :=
  match s.stand with
  | .operand => operandStep s.frames s.row token
  | .operator => operatorStep s.frames s.row token
  | .index =>
    match s.row, token with
    | some t :: row, .mark ']' => some ⟨s.frames, some (.array t) :: row, .operator⟩
    | _, _ => none
  | .name before =>
    match token with
    | .word n | .quoted n => some ⟨s.frames, s.row, .colon before n false⟩
    | .mark '\x7d' => some ⟨s.frames, some (.object before) :: s.row, .operator⟩
    | .mark _ => none
  | .colon before n isOptional =>
    match token with
    | .mark '?' => if isOptional then none else some ⟨s.frames, s.row, .colon before n true⟩
    | .mark ':' => some ⟨.member s.row before n isOptional :: s.frames, [], .operand⟩
    | _ => none

/-- The type that a text is read as. -/
def read? (t : Text) : Option TypeTree :=
  match (tokens? t).bind (·.foldlM State.step ⟨[], [], .operand⟩) with
  | some ⟨[], row, .operator⟩ => some (ofRow row.reverse)
  | _ => none

/-- A text that is read as operands in a row, wherever a type may stand. -/
def Reads (t : Text) (r : Row) : Prop :=
  ∃ ts, Scans t ts ∧ ∀ frames row,
    ts.foldlM State.step ⟨frames, row, .operand⟩ = some ⟨frames, r.reverse ++ row, .operator⟩

namespace Reads

variable {a b : Text} {r s : Row}

theorem read? (h : Reads a r) : read? a = some (ofRow r) := by
  obtain ⟨ts, hscan, hrun⟩ := h
  unfold TypeReader.read?
  rw [hscan.tokens?, Option.bind_some, hrun]
  simp

/-- `[]` belongs to the operand before it, `&` joins more tightly than `|`, and parentheses keep operands together. -/
example : TypeReader.read? "'a' | B & C[] | (D | E)[]" = some (.combined .union
    [.quoted "a", .combined .meet [.word "B", .array (.word "C")],
      .array (.combined .union [.word "D", .word "E"])]) := rfl

theorem word {t : Text} (h : IsNumberWord t) : Reads t [some (.word t)] :=
  ⟨_, .word h, fun _ _ => rfl⟩

theorem literal {t : Text} (h : '\n' ∉ t) : Reads (Text.literal t) [some (.quoted t)] :=
  ⟨_, (Closes.literal h).scans, fun _ _ => rfl⟩

theorem append (op : TypeOperator) (ha : Reads a r) (hb : Reads b s) :
    Reads (a ++ op.sign ++ b) (r ++ gap op ++ s) := by
  obtain ⟨ts, hts, hrun⟩ := ha
  obtain ⟨us, hus, hrun'⟩ := hb
  cases op with
  | meet =>
    have hsign : Closes (TypeOperator.sign .meet) [.mark '&'] := fun _ => rfl
    refine ⟨_, (hts.append_closes hsign rfl).append_scans hus, fun frames row => ?_⟩
    rw [List.append_assoc, List.foldlM_append, hrun]
    change us.foldlM State.step ⟨frames, r.reverse ++ row, .operand⟩ = _
    rw [hrun']
    simp [gap]
  | union =>
    have hsign : Closes (TypeOperator.sign .union) [.mark '|'] := fun _ => rfl
    refine ⟨_, (hts.append_closes hsign rfl).append_scans hus, fun frames row => ?_⟩
    rw [List.append_assoc, List.foldlM_append, hrun]
    change us.foldlM State.step ⟨frames, none :: (r.reverse ++ row), .operand⟩ = _
    rw [hrun']
    simp [gap]

theorem join {α : Type} (op : TypeOperator) {f : α → Text} {g : α → Row} {xs : List α} (hne : xs ≠ [])
    (h : ∀ x ∈ xs, Reads (f x) (g x)) : Reads (Text.join op.sign (xs.map f)) ((gap op).intercalate (xs.map g)) := by
  induction xs with
  | nil => exact absurd rfl hne
  | cons x xs ih =>
    cases xs with
    | nil => simpa using h x List.mem_cons_self
    | cons y xs =>
      have hrest := ih (by simp) fun x hx => h x (List.mem_cons_of_mem _ hx)
      have hmap {β : Type} (k : α → β) : (y :: xs).map k ≠ [] := by simp
      change Reads (Text.join op.sign (f x :: (y :: xs).map f)) ((gap op).intercalate (g x :: (y :: xs).map g))
      rw [join_cons (hmap f), List.intercalate_cons_of_ne_nil (hmap g)]
      exact (h x List.mem_cons_self).append op hrest

theorem array (h : Reads a r) (hr : ∃ s t, r = s ++ [some t]) : Reads (a ++ "[]") (indexed r) := by
  obtain ⟨s, t, rfl⟩ := hr
  obtain ⟨ts, hts, hrun⟩ := h
  have hsign : Closes "[]" [.mark '[', .mark ']'] := fun _ => rfl
  refine ⟨_, (hts.append_closes hsign rfl).scans, fun frames row => ?_⟩
  rw [List.foldlM_append, hrun, indexed_concat, List.reverse_append, List.reverse_append]
  rfl

theorem grouped (h : Reads a r) : Reads ("(" ++ a ++ ")") [some (ofRow r)] := by
  obtain ⟨ts, hts, hrun⟩ := h
  have hopen : Closes "(" [.mark '('] := fun _ => rfl
  have hclose : Closes ")" [.mark ')'] := fun _ => rfl
  refine ⟨_, ((hopen.append_scans hts).append_closes hclose rfl).scans, fun frames row => ?_⟩
  rw [List.foldlM_append, List.foldlM_append]
  change (ts.foldlM State.step ⟨.group row :: frames, [], .operand⟩ >>= _) = _
  rw [hrun]
  simp [State.step, operatorStep, endStep]

theorem record (h : Reads a r) : Reads ("Record<string, " ++ a ++ ">") [some (TypeTree.record (ofRow r))] := by
  obtain ⟨ts, hts, hrun⟩ := h
  have hopen : Closes "Record<string, " [.word "Record", .mark '<', .word "string", .mark ','] := fun _ => rfl
  have hclose : Closes ">" [.mark '>'] := fun _ => rfl
  refine ⟨_, ((hopen.append_scans hts).append_closes hclose rfl).scans, fun frames row => ?_⟩
  rw [List.foldlM_append, List.foldlM_append]
  change (ts.foldlM State.step ⟨.argument row "Record" [.word "string"] :: frames, [], .operand⟩ >>= _) = _
  rw [hrun]
  simp [State.step, operatorStep, endStep, TypeTree.record]

end Reads

/-! ### Members -/

/-- A text that is read as a member of an object, up to the end of its type. -/
def ReadsMember (t : Text) (m : Member TypeTree) : Prop :=
  ∃ ts r, Scans t ts ∧ ofRow r = m.type ∧ ∀ frames row before, ts.foldlM State.step ⟨frames, row, .name before⟩ =
    some ⟨.member row before m.name m.isOptional :: frames, r.reverse, .operator⟩

private theorem scans_propertyName {n : Text} (h : '\n' ∉ n) :
    ∃ token, Scans (Naming.propertyName n) [token] ∧ ∀ frames row before,
      State.step ⟨frames, row, .name before⟩ token = some ⟨frames, row, .colon before n false⟩ := by
  unfold Naming.propertyName
  split
  · next hb => exact ⟨.word n, .word (.of_isIdentifier (Naming.isIdentifier_of_isBareName hb h)), fun _ _ _ => rfl⟩
  · exact ⟨.quoted n, (Closes.literal h).scans, fun _ _ _ => rfl⟩

theorem ReadsMember.of_reads {n type : Text} {r : Row} (hn : '\n' ∉ n) (ht : Reads type r) (isOptional : Bool) :
    ReadsMember (TypeExpr.renderMember n isOptional type) ⟨n, isOptional, ofRow r⟩ := by
  obtain ⟨token, hname, hstep⟩ := scans_propertyName hn
  obtain ⟨ts, hts, hrun⟩ := ht
  cases isOptional with
  | false =>
    have hcolon : Closes ": " [.mark ':'] := fun _ => rfl
    have hscan := (hname.append_closes hcolon rfl).append_scans hts
    refine ⟨_, r, hscan, rfl, fun frames row before => ?_⟩
    rw [List.foldlM_append, List.foldlM_append, List.foldlM_cons, hstep]
    change ts.foldlM State.step ⟨.member row before n false :: frames, [], .operand⟩ = _
    rw [hrun, List.append_nil]
  | true =>
    have hcolon : Closes "?: " [.mark '?', .mark ':'] := fun _ => rfl
    have hscan := (hname.append_closes hcolon rfl).append_scans hts
    refine ⟨_, r, hscan, rfl, fun frames row before => ?_⟩
    rw [List.foldlM_append, List.foldlM_append, List.foldlM_cons, hstep]
    change ts.foldlM State.step ⟨.member row before n true :: frames, [], .operand⟩ = _
    rw [hrun, List.append_nil]

private theorem reads_members {α : Type} {f : α → Text} {g : α → Member TypeTree} {xs : List α}
    (h : ∀ x ∈ xs, ReadsMember (f x) (g x)) :
    ∃ ts, Closes (Text.join "; " (xs.map f) ++ " \x7d") ts ∧ ∀ frames row before,
      ts.foldlM State.step ⟨frames, row, .name before⟩ =
        some ⟨frames, some (.object (before ++ xs.map g)) :: row, .operator⟩ := by
  have hclose : Closes " \x7d" [.mark '\x7d'] := fun _ => rfl
  have hnext : Closes "; " [.mark ';'] := fun _ => rfl
  induction xs with
  | nil => exact ⟨_, hclose, fun frames row before => by simp [State.step]⟩
  | cons x xs ih =>
    obtain ⟨ts, r, hts, hr, hrun⟩ := h x List.mem_cons_self
    cases xs with
    | nil =>
      rw [List.map_singleton, join_singleton]
      refine ⟨_, hts.append_closes hclose rfl, fun frames row before => ?_⟩
      rw [List.foldlM_append, hrun]
      simp [State.step, operatorStep, endStep, hr]
    | cons y xs =>
      obtain ⟨us, hus, hrest⟩ := ih fun x hx => h x (List.mem_cons_of_mem _ hx)
      have hjoin : Text.join "; " ((x :: y :: xs).map f) ++ " \x7d" =
          f x ++ "; " ++ (Text.join "; " ((y :: xs).map f) ++ " \x7d") := by
        simp [List.append_assoc]
      rw [hjoin]
      refine ⟨_, (hts.append_closes hnext rfl).append hus, fun frames row before => ?_⟩
      rw [List.foldlM_append, List.foldlM_append, hrun]
      simp [State.step, operatorStep, endStep, hr, hrest]

theorem Reads.object {α : Type} {f : α → Text} {g : α → Member TypeTree} {xs : List α}
    (h : ∀ x ∈ xs, ReadsMember (f x) (g x)) :
    Reads ("\x7b " ++ Text.join "; " (xs.map f) ++ " \x7d") [some (.object (xs.map g))] := by
  obtain ⟨ts, hts, hrun⟩ := reads_members h
  have hopen : Closes "\x7b " [.mark '\x7b'] := fun _ => rfl
  rw [List.append_assoc]
  refine ⟨_, hopen.append_scans hts.scans, fun frames row => ?_⟩
  rw [List.foldlM_append]
  exact hrun frames row []

end ClientGen.TypeReader
