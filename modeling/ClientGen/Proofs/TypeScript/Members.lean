import ClientGen.Proofs.Text.Entries
import ClientGen.Proofs.Text.Escapes
import ClientGen.Proofs.Text.Lines
import ClientGen.Proofs.TypeScript.TypeExpr
import ClientGen.TypeScript.Members
/-!
# Members read back

The lines of an object type are separated without loss, and the line of a member gives its name, its type
and whether it may be absent.
-/

namespace ClientGen.Source

open Text

/-- A name of a property that is read back as it was. -/
structure IsPropertyName (n : Text) : Prop where
  unquoted : '\'' ∉ n
  one_line : '\n' ∉ n
  not_index : n ≠ "[key: string]".toList

/-! ## Names -/

theorem replace_escapeLiteral {n : Text} (h : '\'' ∉ n) (r : Text) :
    replace "\\\\" "\\" (escapeLiteral n ++ r) = n ++ replace "\\\\" "\\" r := by
  induction n with
  | nil => rfl
  | cons c n ih =>
    rw [List.mem_cons, not_or] at h
    have ih := ih h.2
    by_cases hc : c = '\\'
    · subst hc
      have heq : escapeLiteral ('\\' :: n) = "\\\\".toList ++ escapeLiteral n := by simp [escapeLiteral]
      rw [heq, List.append_assoc, replace_append (by simp), ih]
      rfl
    · have heq : escapeLiteral (c :: n) = c :: escapeLiteral n := by
        simp [escapeLiteral, hc, Ne.symm h.1]
      have hnone : ¬"\\\\".toList <+: c :: (escapeLiteral n ++ r) := by
        rintro ⟨r, hr⟩
        exact hc (List.cons_eq_cons.1 hr).1.symm
      rw [heq, List.cons_append, replace_cons hnone, ih, List.cons_append]

/-- What stands between quotes is read back without them, first its escaped quotes, then its backslashes. -/
theorem unquote_between (b : Text) :
    unquote ('\'' :: b ++ ['\'']) = replace "\\\\" "\\" (replace "\\'" "'" b) := by
  have hlast : (b ++ ['\'']).getLast? = some '\'' := by simp
  simp only [unquote, List.cons_append, hlast, List.dropLast_concat]
  rfl

/-- A text in quotes that holds no quote is read back without them, and with single backslashes. -/
theorem unquote_quoted {b : Text} (h : '\'' ∉ b) : unquote ('\'' :: b ++ ['\'']) = replace "\\\\" "\\" b := by
  rw [unquote_between, replace_of_notMem (c := '\'') (by simp) h]

theorem unquote_propertyName {n : Text} (hq : '\'' ∉ n) (hl : '\n' ∉ n) : unquote (Naming.propertyName n) = n := by
  unfold Naming.propertyName
  split
  · next hb =>
    obtain ⟨c, cs, rfl, hc, -⟩ := isIdentifier_iff.1 (Naming.isIdentifier_of_isBareName hb hl)
    have hi := isIdentChar_of_isIdentStart hc
    simp [unquote, ne_of_isIdentChar hi (d := '\'') (by decide), ne_of_isIdentChar hi (d := '"') (by decide)]
  · have hinner := replace_escapeLiteral hq []
    rw [List.append_nil, replace_nil, List.append_nil] at hinner
    rw [literal, unquote_quoted (notMem_escapeLiteral (by decide) hq), hinner]

theorem enclosed?_append {o e : Char} {t : Text} (h : e ∉ t) (r : Text) :
    enclosed? o e (t ++ e :: r) = some (o :: t ++ [e], r) := by
  have hall : ∀ c ∈ t, (c ≠ e : Bool) = true := by
    intro c hc
    simp only [ne_eq, decide_eq_true_eq]
    rintro rfl
    exact h hc
  rw [enclosed?, List.dropWhile_append_of_pos hall, List.takeWhile_append_of_pos hall]
  simp

theorem memberName?_cons {c : Char} (hc : isIdentStart c = true) (t : Text) :
    memberName? (c :: t) = nameAt? (c :: t) := by
  have hne (d : Char) (hd : isIdentChar d = false) : c ≠ d := ne_of_isIdentChar (isIdentChar_of_isIdentStart hc) hd
  rw [memberName?]
  · exact fun _ he => hne '[' (by decide) (List.cons_eq_cons.1 he).1
  · exact fun _ he => hne '[' (by decide) (List.cons_eq_cons.1 he).1
  · exact fun _ he => hne '\'' (by decide) (List.cons_eq_cons.1 he).1
  · exact fun _ he => hne '"' (by decide) (List.cons_eq_cons.1 he).1

theorem memberName?_propertyName {n r : Text} (hq : '\'' ∉ n) (hl : '\n' ∉ n)
    (hr : ∀ c ∈ r.head?, isNameChar c = false) :
    memberName? (Naming.propertyName n ++ r) = some (Naming.propertyName n, r) := by
  unfold Naming.propertyName
  split
  · next hb =>
    have hn := Naming.isIdentifier_of_isBareName hb hl
    have hname := nameAt?_identifier hn hr
    obtain ⟨c, cs, rfl, hc, -⟩ := isIdentifier_iff.1 hn
    rw [← hname, List.cons_append, memberName?_cons hc]
  · have henclosed := enclosed?_append (o := '\'') (notMem_escapeLiteral (by decide) hq) r
    simpa [literal, memberName?] using henclosed

/-! ## Types -/

theorem trim_typeText {a b t : Text} (h : IsTypeText t) (ha : ∀ c ∈ a, isBlank c = true)
    (hb : ∀ c ∈ b, isBlank c = true) : trim (a ++ t ++ b) = t := by
  obtain ⟨u, c, ht, hc, -⟩ := h.ends
  exact trim_around h.begins ⟨u, c, ht, hc⟩ ha hb

theorem dropSeparator_of_ne {c : Char} (h : c ≠ ';' ∧ c ≠ ',') (t : Text) : dropSeparator (t ++ [c]) = t ++ [c] := by
  rw [dropSeparator, List.reverse_append, List.reverse_singleton, List.singleton_append]
  cases t.reverse with
  | nil => rfl
  | cons d v => simp [h.1, h.2]

theorem dropSeparator_comma {t : Text} (h : t ≠ []) : dropSeparator (t ++ [',']) = t := by
  obtain ⟨d, u, hu⟩ := List.exists_cons_of_ne_nil (List.reverse_ne_nil_iff.2 h)
  rw [dropSeparator, List.reverse_append, List.reverse_singleton, List.singleton_append, hu]
  simp [← hu]

theorem memberType?_typeText {t : Text} (h : IsTypeText t) : memberType? (' ' :: t) = some (collapse t) := by
  have htrim : trim (' ' :: t) = t := by
    simpa using trim_typeText (a := [' ']) (b := []) h (by decide) (by simp)
  obtain ⟨u, c, rfl, -, hc⟩ := h.ends
  rw [memberType?, if_neg (List.cons_ne_nil _ _), htrim, dropSeparator_of_ne hc]

/-! ## Lines of members -/

theorem trimStart_margin {margin t : Text} (hm : ∀ c ∈ margin, isBlank c = true)
    (h : ∀ c ∈ t.head?, isBlank c = false) : trimStart (margin ++ t) = t := by
  rw [trimStart, List.dropWhile_append_of_pos hm]
  cases t with
  | nil => rfl
  | cons c t => exact trimStart_cons (h c (by simp)) t

theorem isBlank_head_propertyName {n : Text} (hl : '\n' ∉ n) (r : Text) :
    ∀ c ∈ (Naming.propertyName n ++ r).head?, isBlank c = false := by
  unfold Naming.propertyName
  split
  · next hb =>
    obtain ⟨c, cs, rfl, hc, -⟩ := isIdentifier_iff.1 (Naming.isIdentifier_of_isBareName hb hl)
    simpa using isBlank_of_isIdentChar (isIdentChar_of_isIdentStart hc)
  · simp only [literal, List.cons_append, List.head?_cons, Option.mem_some_iff, forall_eq']
    decide

/-- A piece is the member of its name, its mark and the type behind its colon. -/
theorem member?_of_name {piece name tail type : Text} {isOptional : Bool} (ht : memberType? tail = some type)
    (h : memberName? (trimStart piece) = some (name, (if isOptional then ['?'] else []) ++ ':' :: tail)) :
    member? piece = some (unquote name, ⟨type, isOptional⟩) := by
  have hcolon : trimStart (':' :: tail) = ':' :: tail := trimStart_cons (by decide) _
  cases isOptional
  · simp [member?, h, hcolon, ht]
  · simp [member?, h, hcolon, ht]

/-- The text of a member gives back the member, behind any blanks. -/
theorem member?_renderMember {margin n type : Text} (hm : ∀ c ∈ margin, isBlank c = true) (hq : '\'' ∉ n)
    (hl : '\n' ∉ n) (ht : IsTypeText type) (isOptional : Bool) :
    member? (margin ++ TypeExpr.renderMember n isOptional type) = some (n, ⟨collapse type, isOptional⟩) := by
  have hline : TypeExpr.renderMember n isOptional type =
      Naming.propertyName n ++ ((if isOptional then ['?'] else []) ++ ':' :: ' ' :: type) := by
    cases isOptional <;> simp [TypeExpr.renderMember]
  have hrest : ∀ c ∈ ((if isOptional then ['?'] else []) ++ ':' :: ' ' :: type).head?,
      isNameChar c = false := by
    have hcolon : isNameChar ':' = false := by decide
    have hmark : isNameChar '?' = false := by decide
    cases isOptional <;> simp [hcolon, hmark]
  have hname : memberName? (trimStart (margin ++ TypeExpr.renderMember n isOptional type)) =
      some (Naming.propertyName n, (if isOptional then ['?'] else []) ++ ':' :: ' ' :: type) := by
    rw [hline, trimStart_margin hm (isBlank_head_propertyName hl _), memberName?_propertyName hq hl hrest]
  rw [member?_of_name (memberType?_typeText ht) hname, unquote_propertyName hq hl]

/-- The line of an index signature gives back a member with its own kind of name. -/
theorem member?_index {type : Text} (ht : IsTypeText type) :
    member? ("  [key: string]: ".toList ++ type) =
      some ("[key: string]".toList, ⟨collapse type, false⟩) := by
  have hline : "  [key: string]: ".toList ++ type =
      "  ".toList ++ '[' :: ("key: string".toList ++ ']' :: ':' :: ' ' :: type) := by simp
  have hbracket : isBlank '[' = false := by decide
  have hname : memberName? (trimStart ("  [key: string]: ".toList ++ type)) =
      some ("[key: string]".toList, (if false then ['?'] else []) ++ ':' :: ' ' :: type) := by
    have h := enclosed?_append (o := '[') (e := ']') (t := "key: string") (by decide)
      (':' :: ' ' :: type)
    rw [hline, trimStart_margin (by decide) (by simpa using hbracket)]
    simpa [memberName?] using h
  have hunquote : unquote "[key: string]" = "[key: string]".toList := by decide
  rw [member?_of_name (memberType?_typeText ht) hname, hunquote]

/-! ## Bodies of object types -/

/-- The characters that separate the members of an object type are plain. -/
theorem separator_isPlain :
    ∀ c, (decide (c = ';') || decide (c = '\n')) = true → isPlain c = true := by
  intro c hc
  simp only [Bool.or_eq_true, decide_eq_true_eq] at hc
  rcases hc with rfl | rfl <;> decide

private theorem isTypeChar_separates_nothing :
    ∀ c, isTypeChar c = true → (decide (c = ';') || decide (c = '\n')) = false := by
  intro c hc
  simp only [isTypeChar, Bool.and_eq_true, bne_iff_ne] at hc
  simp [hc]

theorem splitTopLevel_nested {t : Text} (h : Nested (· != '/') isTypeChar t) (hb : allBlank t = false) :
    splitTopLevel (fun c => c = ';' || c = '\n') t = [t] := by
  have hsplit := splitMarks_nested separator_isPlain h (.inr ⟨rfl, isTypeChar_separates_nothing⟩) []
  rw [List.append_nil] at hsplit
  rw [splitTopLevel, hsplit]
  simp [splitMarks, onFirst, hb]

theorem splitTopLevel_unlines {ls : List Text}
    (h : ∀ l ∈ ls, Nested (· != '/') isTypeChar l) :
    splitTopLevel (fun c => c = ';' || c = '\n') (unlines ls) = ls.filter (!allBlank ·) := by
  have hsplit : splitMarks (fun c => c = ';' || c = '\n') 0 (marks (unlines ls)) = ls ++ [[]] := by
    induction ls with
    | nil => rfl
    | cons l ls ih =>
      rw [unlines_cons, splitMarks_separator separator_isPlain isTypeChar_separates_nothing
        (h l List.mem_cons_self) (by decide), ih fun l hl => h l (List.mem_cons_of_mem _ hl),
        List.cons_append]
  rw [splitTopLevel, hsplit, List.filter_append]
  simp [allBlank]

end ClientGen.Source
