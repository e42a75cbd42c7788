import ClientGen.Proofs.TypeScript.Members
/-!
# The layout of members

The members of an object type may stand one on each line or between semicolons, with blank lines between them and
blanks around what ends them. What is read of them depends on their names, marks and types alone.
-/

namespace ClientGen.Source

open Text

/-- A member by its parts. -/
structure WrittenMember where
  name : Text
  /-- Whether the name stands in single quotes. -/
  isQuoted : Bool
  isOptional : Bool
  type : Text

/-- What ends a member. -/
inductive Terminator where
  | line
  | semicolon
  /-- A semicolon and the end of the line, with what stands between them. -/
  | semicolonLine (between : Text)
  /-- A comma and the end of the line, with what stands between them. -/
  | commaLine (between : Text)

/-- What stands between a member and the next one. -/
structure Layout where
  before : Text
  terminator : Terminator
  /-- The rest of the line of the terminator, and blank lines behind it. -/
  blankLines : List Text
  /-- What stands before the next member on its line. -/
  margin : Text

def Terminator.text : Terminator → Text
  | line => "\n"
  | semicolon => ";"
  | semicolonLine between => ';' :: between ++ ['\n']
  | commaLine between => ',' :: between ++ ['\n']

/-- What stands inside a terminator. -/
def Terminator.between : Terminator → Text
  | line | semicolon => []
  | semicolonLine between | commaLine between => between

def Layout.text (l : Layout) : Text := l.before ++ l.terminator.text ++ unlines l.blankLines ++ l.margin

def IsSpacing (t : Text) : Prop := ∀ c ∈ t, c = ' ' ∨ c = '\t'

instance (t : Text) : Decidable (IsSpacing t) := decidableForallMem _ t

/-- The layout has only spaces and tabs beside its terminator and line feeds. -/
structure Layout.IsProper (l : Layout) : Prop where
  before : IsSpacing l.before
  between : IsSpacing l.terminator.between
  blankLines : ∀ b ∈ l.blankLines, IsSpacing b
  margin : IsSpacing l.margin

/-- Whether a character stands in the type of a member outside brackets and literals. -/
def isMemberChar (c : Char) : Bool := c != ';' && c != '\n'

/-- A type whose brackets and literals are complete. It does not end in a separator or a blank, and does not begin with a
blank. -/
structure IsMemberType (t : Text) : Prop where
  nested : Nested (fun _ => true) isMemberChar t
  begins : ∃ c u, t = c :: u ∧ isBlank c = false
  ends : ∃ u c, t = u ++ [c] ∧ isBlank c = false ∧ c ≠ ';' ∧ c ≠ ','

namespace WrittenMember

def nameText (m : WrittenMember) : Text := if m.isQuoted then '\'' :: m.name ++ ['\''] else m.name

def text (m : WrittenMember) : Text := m.nameText ++ ((if m.isOptional then ['?'] else []) ++ ':' :: ' ' :: m.type)

def field (m : WrittenMember) : Text × Field := (m.name, ⟨collapse m.type, m.isOptional⟩)

/-- A name without quotes is an identifier; one in quotes holds no apostrophe, backslash or line feed. -/
structure IsProper (m : WrittenMember) : Prop where
  bare : m.isQuoted = false →
    ∃ c cs, m.name = c :: cs ∧ isIdentStart c = true ∧ ∀ d ∈ cs, isNameChar d = true
  quoted : m.isQuoted = true → ∀ c ∈ m.name, c ≠ '\'' ∧ c ≠ '\\' ∧ c ≠ '\n'
  type : IsMemberType m.type

end WrittenMember

/-- The members one after the other, each with what stands behind it. -/
def written : List WrittenMember → List Layout → Text
  | m :: ms, l :: ls => m.text ++ l.text ++ written ms ls
  | _, _ => []

variable {m : WrittenMember} {l : Layout} {t r : Text}

/-! ## Blanks -/

private theorem IsSpacing.isBlank (h : IsSpacing t) : ∀ c ∈ t, isBlank c = true := by
  intro c hc
  rcases h c hc with rfl | rfl <;> decide

private theorem IsSpacing.nested (h : IsSpacing t) : Nested (fun _ => true) isMemberChar t := by
  refine .of_plain fun c hc => ?_
  rcases h c hc with rfl | rfl <;> decide

/-! ## Pieces -/

private theorem isMemberChar_separates_nothing :
    ∀ c, isMemberChar c = true → (decide (c = ';') || decide (c = '\n')) = false := by
  intro c hc
  simp only [isMemberChar, Bool.and_eq_true, bne_iff_ne] at hc
  simp [hc]

/-- The pieces in which members are looked for. -/
private def pieces (t : Text) : List Text := splitTopLevel (fun c => c = ';' || c = '\n') t

private theorem pieces_append (ht : Nested (fun _ => true) isMemberChar t) {c : Char} (hc : c = ';' ∨ c = '\n') :
    pieces (t ++ c :: r) = [t].filter (!allBlank ·) ++ pieces r := by
  have hsep : (decide (c = ';') || decide (c = '\n')) = true := by simpa using hc
  rw [pieces, splitTopLevel, splitMarks_separator separator_isPlain isMemberChar_separates_nothing ht hsep,
    ← List.singleton_append, List.filter_append]
  rfl

private theorem pieces_blank (ht : IsSpacing t) {c : Char} (hc : c = ';' ∨ c = '\n') :
    pieces (t ++ c :: r) = pieces r := by
  have hblank : allBlank t = true := List.all_eq_true.2 ht.isBlank
  rw [pieces_append ht.nested hc]
  simp [hblank]

private theorem pieces_unlines {ls : List Text} (h : ∀ b ∈ ls, IsSpacing b) : pieces (unlines ls ++ r) = pieces r := by
  induction ls with
  | nil => rfl
  | cons b ls ih =>
    rw [unlines_cons, List.append_assoc, List.cons_append, pieces_blank (h b List.mem_cons_self) (.inr rfl),
      ih fun b' hb' => h b' (List.mem_cons_of_mem b hb')]

/-- What a terminator leaves at the end of a piece: nothing, or a comma. -/
private def IsRemainder (t : Text) : Prop := t = [] ∨ ∃ between, t = ',' :: between ∧ IsSpacing between

private theorem pieces_terminator (ht : Nested (fun _ => true) isMemberChar t) (hfull : ∃ c ∈ t, isBlank c = false)
    {terminator : Terminator} (hb : IsSpacing terminator.between) :
    ∃ remainder, IsRemainder remainder ∧ pieces (t ++ terminator.text ++ r) = (t ++ remainder) :: pieces r := by
  obtain ⟨remainder, c, line, htext, hremainder, hc, hline⟩ : ∃ (remainder : Text) (c : Char) (line : Text),
      terminator.text = remainder ++ c :: line ∧ IsRemainder remainder ∧ (c = ';' ∨ c = '\n') ∧
        pieces (line ++ r) = pieces r := by
    cases terminator with
    | line => exact ⟨[], '\n', [], rfl, .inl rfl, .inr rfl, rfl⟩
    | semicolon => exact ⟨[], ';', [], rfl, .inl rfl, .inl rfl, rfl⟩
    | semicolonLine between =>
      refine ⟨[], ';', between ++ ['\n'], rfl, .inl rfl, .inl rfl, ?_⟩
      rw [List.append_assoc]
      exact pieces_blank hb (.inr rfl)
    | commaLine between => exact ⟨',' :: between, '\n', [], rfl, .inr ⟨between, rfl, hb⟩, .inr rfl, rfl⟩
  refine ⟨remainder, hremainder, ?_⟩
  have hnested : Nested (fun _ => true) isMemberChar (t ++ remainder) := by
    refine ht.append ?_
    rcases hremainder with rfl | ⟨between, rfl, hspacing⟩
    · exact .nil
    · exact .plain (by decide) (by decide) hspacing.nested
  have hkept : [t ++ remainder].filter (!allBlank ·) = [t ++ remainder] := by
    obtain ⟨d, hd, hblank⟩ := hfull
    have hno : allBlank (t ++ remainder) = false :=
      List.all_eq_false.2 ⟨d, List.mem_append_left _ hd, by simp [hblank]⟩
    simp [hno]
  have hshape : t ++ terminator.text ++ r = t ++ remainder ++ c :: (line ++ r) := by simp [htext]
  rw [hshape, pieces_append hnested hc, hkept, hline, List.singleton_append]

/-! ## One member -/

private theorem isPlain_of_isNameChar {c : Char} (h : isNameChar c = true) :
    isPlain c = true ∧ isMemberChar c = true := by
  have hlow : ∀ c : Char, c.toNat < 0x80 → isNameChar c = true → isPlain c = true ∧ isMemberChar c = true :=
    forall_toNat_lt (by decide)
  have hbeyond (d : Char) (hd : d.toNat < 0x80) (hc : ¬c.toNat < 0x80) : c ≠ d := by
    rintro rfl
    exact hc hd
  by_cases hc : c.toNat < 0x80
  · exact hlow c hc h
  · have hne (d : Char) (hd : d.toNat < 0x80) : c ≠ d := hbeyond d hd hc
    simp [isPlain, isQuote, closer?, isCloser, isMemberChar, hne '\'' (by decide), hne '"' (by decide),
      hne '\x60' (by decide), hne '\x7b' (by decide), hne '(' (by decide), hne '[' (by decide), hne '\x7d' (by decide),
      hne ')' (by decide), hne ']' (by decide), hne ';' (by decide), hne '\n' (by decide)]

namespace WrittenMember

private theorem nested_nameText (h : m.IsProper) : Nested (fun _ => true) isMemberChar m.nameText := by
  rw [nameText]
  cases hq : m.isQuoted with
  | false =>
    obtain ⟨c, cs, hname, hc, hcs⟩ := h.bare hq
    have hall : ∀ d ∈ m.name, isNameChar d = true := by
      rw [hname, List.forall_mem_cons]
      exact ⟨isNameChar_of_isIdentChar (isIdentChar_of_isIdentStart hc), hcs⟩
    exact .of_plain fun d hd => isPlain_of_isNameChar (hall d hd)
  | true =>
    have hbody : LiteralBody '\'' m.name := .of_forall fun c hc =>
      ⟨(h.quoted hq c hc).2.1, (h.quoted hq c hc).1, fun hl => absurd hl (h.quoted hq c hc).2.2⟩
    exact .quoted (by decide) hbody

private theorem nested_text (h : m.IsProper) : Nested (fun _ => true) isMemberChar m.text := by
  have hmark : Nested (fun _ => true) isMemberChar (if m.isOptional then ['?'] else []) := by
    cases m.isOptional
    · exact .nil
    · exact .of_plain (by decide)
  exact (nested_nameText h).append (hmark.append (.plain (by decide) (by decide) (.plain (by decide) (by decide) h.type.nested)))

private theorem isBlank_head_text (h : m.IsProper) (t : Text) : ∀ c ∈ (m.nameText ++ t).head?, isBlank c = false := by
  rw [nameText]
  cases hq : m.isQuoted with
  | false =>
    obtain ⟨c, cs, hname, hc, -⟩ := h.bare hq
    simpa [hname] using isBlank_of_isIdentChar (isIdentChar_of_isIdentStart hc)
  | true =>
    have hquote : isBlank '\'' = false := by decide
    simpa using hquote

private theorem memberName?_nameText (h : m.IsProper) (hr : ∀ c ∈ r.head?, isNameChar c = false) :
    memberName? (m.nameText ++ r) = some (m.nameText, r) := by
  rw [nameText]
  cases hq : m.isQuoted with
  | false =>
    obtain ⟨c, cs, hname, hc, hcs⟩ := h.bare hq
    simp only [Bool.false_eq_true, if_false, hname]
    rw [List.cons_append, memberName?_cons hc, ← List.cons_append, nameAt?_append hc hcs hr]
  | true =>
    have hquote : '\'' ∉ m.name := fun hc => (h.quoted hq _ hc).1 rfl
    have henclosed := enclosed?_append (o := '\'') hquote r
    simpa [memberName?] using henclosed

private theorem unquote_nameText (h : m.IsProper) : unquote m.nameText = m.name := by
  rw [nameText]
  cases hq : m.isQuoted with
  | false =>
    obtain ⟨c, cs, hname, hc, -⟩ := h.bare hq
    have hi := isIdentChar_of_isIdentStart hc
    simp [hname, unquote, ne_of_isIdentChar hi (d := '\'') (by decide), ne_of_isIdentChar hi (d := '"') (by decide)]
  | true =>
    have hquote : '\'' ∉ m.name := fun hc => (h.quoted hq _ hc).1 rfl
    have hbackslash : '\\' ∉ m.name := fun hc => (h.quoted hq _ hc).2.1 rfl
    exact (unquote_quoted hquote).trans (replace_of_notMem (c := '\\') (by simp) hbackslash _)

end WrittenMember

private theorem memberType?_between (ht : IsMemberType t) {b remainder : Text} (hb : IsSpacing b)
    (hr : IsRemainder remainder) : memberType? (' ' :: (t ++ b ++ remainder)) = some (collapse t) := by
  have hspace : ∀ c ∈ [' '], isBlank c = true := by decide
  obtain ⟨u, d, hu, hd, hend⟩ := ht.ends
  rw [memberType?, if_neg (List.cons_ne_nil _ _)]
  rcases hr with rfl | ⟨between, rfl, hbetween⟩
  · have htrim : trim (' ' :: (t ++ b ++ [])) = t := by
      simpa using trim_around ht.begins ⟨u, d, hu, hd⟩ hspace hb.isBlank
    rw [htrim, hu, dropSeparator_of_ne hend]
  · have hbegins : ∃ c v, t ++ b ++ [','] = c :: v ∧ isBlank c = false := by
      obtain ⟨c, v, rfl, hc⟩ := ht.begins
      exact ⟨c, v ++ b ++ [','], by simp, hc⟩
    have htrim : trim (' ' :: (t ++ b ++ ',' :: between)) = t ++ b ++ [','] := by
      simpa using trim_around hbegins ⟨t ++ b, ',', rfl, by decide⟩ hspace hbetween.isBlank
    have hne : t ++ b ≠ [] := by simp [hu]
    rw [htrim, dropSeparator_comma hne, collapse_append_of_blank hb.isBlank]

private theorem member?_between (hm : m.IsProper) {margin b remainder : Text} (hmargin : IsSpacing margin)
    (hb : IsSpacing b) (hr : IsRemainder remainder) :
    member? (margin ++ m.text ++ b ++ remainder) = some m.field := by
  have hshape : margin ++ m.text ++ b ++ remainder = margin ++ (m.nameText ++
      ((if m.isOptional then ['?'] else []) ++ ':' :: ' ' :: (m.type ++ b ++ remainder))) := by
    simp [WrittenMember.text]
  have hrest : ∀ c ∈ ((if m.isOptional then ['?'] else []) ++ ':' :: ' ' :: (m.type ++ b ++ remainder)).head?,
      isNameChar c = false := by
    have hcolon : isNameChar ':' = false := by decide
    have hmark : isNameChar '?' = false := by decide
    cases m.isOptional <;> simp [hcolon, hmark]
  have hname : memberName? (trimStart (margin ++ m.text ++ b ++ remainder)) =
      some (m.nameText, (if m.isOptional then ['?'] else []) ++ ':' :: ' ' :: (m.type ++ b ++ remainder)) := by
    rw [hshape, trimStart_margin hmargin.isBlank (m.isBlank_head_text hm _), m.memberName?_nameText hm hrest]
  rw [member?_of_name (memberType?_between hm.type hb hr) hname, m.unquote_nameText hm]
  rfl

/-! ## All members -/

private theorem filterMap_pieces_written {ms : List WrittenMember} {ls : List Layout} (hlength : ls.length = ms.length)
    (hm : ∀ m ∈ ms, m.IsProper) (hl : ∀ l ∈ ls, l.IsProper) {margin : Text} (hmargin : IsSpacing margin) :
    (pieces (margin ++ written ms ls)).filterMap member? = ms.map WrittenMember.field := by
  induction ms generalizing ls margin with
  | nil =>
    have hblank : allBlank margin = true := List.all_eq_true.2 hmargin.isBlank
    have hpieces : pieces margin = [] := by
      have h := splitMarks_nested separator_isPlain hmargin.nested (.inr ⟨rfl, isMemberChar_separates_nothing⟩) []
      rw [List.append_nil] at h
      rw [pieces, splitTopLevel, h]
      simp [splitMarks, onFirst, hblank]
    rw [written, List.append_nil, hpieces]
    · rfl
    · simp
  | cons m ms ih =>
    obtain ⟨l, ls, rfl⟩ := List.exists_cons_of_length_eq_add_one hlength
    have hm' := hm m List.mem_cons_self
    have hl' := hl l List.mem_cons_self
    have ih := ih (by simpa using hlength) (fun m' h => hm m' (List.mem_cons_of_mem m h))
      (fun l' h => hl l' (List.mem_cons_of_mem l h)) hl'.margin
    have hnested : Nested (fun _ => true) isMemberChar (margin ++ m.text ++ l.before) :=
      (hmargin.nested.append (m.nested_text hm')).append hl'.before.nested
    have hfull : ∃ c ∈ margin ++ m.text ++ l.before, isBlank c = false :=
      ⟨':', by simp [WrittenMember.text], by decide⟩
    have hshape : margin ++ written (m :: ms) (l :: ls) = margin ++ m.text ++ l.before ++ l.terminator.text ++
        (unlines l.blankLines ++ (l.margin ++ written ms ls)) := by
      simp [written, Layout.text]
    obtain ⟨remainder, hr, hpieces⟩ := pieces_terminator (r := unlines l.blankLines ++ (l.margin ++ written ms ls))
      hnested hfull hl'.between
    rw [hshape, hpieces, pieces_unlines hl'.blankLines,
      List.filterMap_cons_some (member?_between hm' hmargin hl'.before hr), ih, List.map_cons]

/-- Members with different names are read back with their names, marks and types, their white space collapsed,
whatever ends each of them, whatever spaces and tabs stand around that, and however many blank lines follow. -/
theorem members_written {ms : List WrittenMember} (hm : ∀ m ∈ ms, m.IsProper)
    (hnames : (ms.map WrittenMember.name).Nodup) {margin : Text} (hmargin : IsSpacing margin) :
    ∀ ls : List Layout, ls.length = ms.length → (∀ l ∈ ls, l.IsProper) →
      members (margin ++ written ms ls) = ms.map WrittenMember.field := by
  intro ls hlength hl
  have hkeys : ((ms.map WrittenMember.field).map Prod.fst).Nodup := by
    rw [List.map_map]
    exact hnames
  rw [members, ← Table.ofEntries_of_nodup hkeys]
  exact congrArg Table.ofEntries (filterMap_pieces_written hlength hm hl hmargin)

/-- Separators and brackets in a literal, a semicolon and a line feed in braces, and a semicolon in a name. -/
theorem members_written_of_point :
    let type : Text := "\x7b x: string;\n y?: '];' \x7d"
    let ms : List WrittenMember := [⟨"at", false, true, type⟩, ⟨"a;b", true, false, "string"⟩]
    let ls : List Layout := [⟨" \t", .commaLine " ", [""], "  "⟩, ⟨"", .semicolon, [], " "⟩]
    (∀ m ∈ ms, m.IsProper) ∧ (ms.map WrittenMember.name).Nodup ∧ IsSpacing "  ".toList ∧ ls.length = ms.length ∧
      (∀ l ∈ ls, l.IsProper) ∧
      "  ".toList ++ written ms ls = "  at?: \x7b x: string;\n y?: '];' \x7d \t, \n\n  'a;b': string; ".toList ∧
      members ("  ".toList ++ written ms ls) =
        [("at".toList, ⟨"\x7b x: string; y?: '];' \x7d", true⟩), ("a;b".toList, ⟨"string", false⟩)] := by
  intro type ms ls
  have hshape : type = '\x7b' :: (" x: string;\n y?: ".toList ++ ('\'' :: "];".toList ++ ['\'']) ++ [' ']) ++ ['\x7d'] := by
    decide
  have hinside : Nested (fun _ => true) (fun _ => true)
      (" x: string;\n y?: ".toList ++ ('\'' :: "];".toList ++ ['\'']) ++ [' ']) :=
    ((Nested.of_plain (by decide)).append (.quoted (by decide) (.of_forall (by decide)))).append (.of_plain (by decide))
  have htype : IsMemberType type :=
    ⟨hshape ▸ .bracketed (by decide) hinside, ⟨'\x7b', _, rfl, by decide⟩, ⟨_, '\x7d', hshape, by decide⟩⟩
  have hstring : IsMemberType "string" :=
    ⟨.of_plain (by decide), ⟨'s', _, rfl, by decide⟩, ⟨"strin", 'g', rfl, by decide⟩⟩
  have hm : ∀ m ∈ ms, m.IsProper := by
    simp only [ms, List.forall_mem_cons]
    exact ⟨⟨fun _ => ⟨'a', ['t'], rfl, by decide⟩, nofun, htype⟩, ⟨nofun, fun _ => by decide, hstring⟩, nofun⟩
  have hl : ∀ l ∈ ls, l.IsProper := by
    simp only [ls, List.forall_mem_cons]
    exact ⟨⟨by decide, by decide, by decide, by decide⟩, ⟨by decide, by decide, nofun, by decide⟩, nofun⟩
  have hmargin : IsSpacing "  ".toList := by decide
  have hread := members_written hm (by decide) hmargin ls rfl hl
  exact ⟨hm, by decide, hmargin, rfl, hl, by decide, hread.trans (by decide)⟩

end ClientGen.Source
