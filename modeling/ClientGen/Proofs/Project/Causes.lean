import ClientGen.Proofs.Files.Mishaps
import ClientGen.Proofs.Project.Conditions
/-!
# Causes of failures

A task that fails does so with a complaint about what it was doing, or in an accident that has its cause on the machine:
bytes that are no text, an integer with too many digits, a value that cannot be built, or a name that no file can have.
-/

namespace ClientGen

open Text ClientGen.Task FileTree

variable {α : Type} {named : Text → Prop} {told : Complaint → Prop} {m₀ m m' : Machine} {I : Machine → Prop}
  {path output directory : Path} {s : Settings} {e : Failure}

/-! ## Causes -/

/-- The text is that of a file, its lines ended by line feeds, or that of a reply. -/
def Machine.Gives (m : Machine) (t : Text) : Prop :=
  (∃ p u, m.files.get? p = some (.file (.text u)) ∧ t = unifyLineEnds u) ∨
    ∃ url reply, m.replies.get? url = some reply ∧ t = reply.text

/-- What on a machine brings an accident about, where the names that are looked up are known. -/
inductive Accident.IsCaused (named : Text → Prop) (m : Machine) : Accident → Prop
  | notText {p : Place} {bs : List UInt8} (h : m.files.get? p = some (.file (.bytes bs))) : IsCaused named m .notText
  | tooManyDigits {t : Text} (ht : m.Gives t) (h : Json.read t = .error .tooManyDigits) :
      IsCaused named m .tooManyDigits
  | value {t : Text} {e : Yaml.ReadError} (ht : m.Gives t) (h : Yaml.read t = .error e) (he : e ≠ .malformed) :
      IsCaused named m (.value e)
  | file {e : FileError} (h : e.BlamesName named) : IsCaused named m (.file e)

/-- The failure is one of some complaints, or an accident that has its cause on the machine. -/
def Failure.IsOf (told : Complaint → Prop) (named : Text → Prop) (m : Machine) : Failure → Prop
  | .complaint c => told c
  | .accident a => a.IsCaused named m

namespace Complaint

/-- The complaint is about the description. -/
def OfDescription : Complaint → Prop
  | .description _ => True
  | _ => False

def OfManifest : Complaint → Prop
  | .manifest _ => True
  | _ => False

def OfOutput : Complaint → Prop
  | .output _ => True
  | _ => False

end Complaint

theorem Failure.IsOf.mono {told' : Complaint → Prop} (h : e.IsOf told named m) (ht : ∀ c, told c → told' c) :
    e.IsOf told' named m := by
  cases e with
  | complaint c => exact ht c h
  | accident a => exact h

private theorem isOf_failure {c : Complaint} {e : FileError} (hc : told c)
    (hbad : e = .badName → e.BlamesName named) : (FileError.failure (.complaint c) e).IsOf told named m := by
  cases e with
  | badName => exact .file (hbad rfl)
  | missing | notDirectory | isDirectory | occupied | tooManyLinks | tooLong | refused => exact hc

/-! ## Tasks that look at files -/

section Looking

variable (hI : ∀ m, I m → Descends named m₀.files m.files) (hpath : ∀ name ∈ path.names, named name)
include hI hpath

theorem meets_isFile : Meets I (fun _ => I) (fun e _ => e.IsOf told named m₀) (isFile path) := by
  apply Meets.attempt
  · intro m b m' hm hrun
    obtain ⟨-, rfl⟩ := Prod.mk.inj hrun
    exact hm
  · intro m e m' hm hrun
    exact .file (leadsTo_eq_error hpath (hI m hm).mentioned (Prod.mk.inj hrun).1)

theorem meets_isDirectory :
    Meets I (fun b m => I m ∧ (b = true → ∃ p, m.files.find true path = .ok (p, some .directory)))
      (fun e _ => e.IsOf told named m₀) (isDirectory path) := by
  apply Meets.attempt
  · intro m b m' hm hrun
    obtain ⟨hdirectory, rfl⟩ := Prod.mk.inj hrun
    refine ⟨hm, fun hb => ?_⟩
    subst hb
    change m.files.leadsTo _ path = .ok true at hdirectory
    unfold leadsTo at hdirectory
    split at hdirectory
    · next p old hf =>
      cases old with
      | none => simp at hdirectory
      | some old => cases old <;> simp_all
    · split at hdirectory <;> simp at hdirectory
  · intro m e m' hm hrun
    exact .file (leadsTo_eq_error hpath (hI m hm).mentioned (Prod.mk.inj hrun).1)

theorem meets_readText {c : Complaint} (hc : told c) :
    Meets I (fun t m => I m ∧ ∃ p u, m.files.get? p = some (.file (.text u)) ∧ t = unifyLineEnds u)
      (fun e _ => e.IsOf told named m₀) (readText (.complaint c) path) := by
  unfold readText
  apply Meets.bind (J := fun content m => I m ∧ ∃ p, m.files.get? p = some (.file content))
  · apply Meets.attempt
    · intro m content m' hm hrun
      obtain ⟨hread, rfl⟩ := Prod.mk.inj hrun
      obtain ⟨p, hf⟩ := read_eq_ok_iff.1 hread
      exact ⟨hm, p, get?_of_find_file hf⟩
    · intro m e m' hm hrun
      apply isOf_failure hc
      rintro rfl
      exact blamesName_of_hasZero hpath (hasZero_of_read (Prod.mk.inj hrun).1)
  · intro content
    cases content with
    | text u => exact .pure fun m ⟨hm, p, hp⟩ => ⟨hm, p, u, hp, rfl⟩
    | bytes bs => exact .throw fun m ⟨hm, p, hp⟩ => .notText ((hI m hm).bytes_old p bs hp)

theorem meets_readOutput? :
    Meets I (fun _ => I) (fun e _ => e.IsOf Complaint.OfOutput named m₀) (readOutput? path) := by
  unfold readOutput?
  apply Meets.bind (meets_isFile hI hpath)
  intro b
  cases b with
  | false => exact .pure fun _ => id
  | true => exact .bind (meets_readText hI hpath trivial) fun t => .pure fun _ h => h.1

end Looking

/-! ## Loading -/

/-- The machine with nothing but more warnings. -/
def Machine.Warns (m₀ m : Machine) : Prop := ∃ ws, m = m₀.warned ws

theorem meets_warn {w : Warning} {F : Failure → Machine → Prop} (h : ∀ m, I m → I (m.warned [w])) :
    Meets I (fun _ => I) F (warn w) := by
  apply Meets.lift
  intro m u m' hm hrun
  obtain ⟨-, rfl⟩ := Prod.mk.inj hrun
  exact h m hm

theorem Machine.Warns.warned (h : m₀.Warns m) (w : Warning) : m₀.Warns (m.warned [w]) := by
  obtain ⟨ws, rfl⟩ := h
  exact ⟨ws ++ [w], by simp [Machine.warned]⟩

section Loading

variable (hnamed : ∀ name, m₀.files.Mentions name → named name)
include hnamed

theorem Machine.Warns.descends (h : m₀.Warns m) : Descends named m₀.files m.files := by
  obtain ⟨ws, rfl⟩ := h
  exact ⟨fun _ _ hp => hp, hnamed⟩

omit hnamed in
private theorem meets_request {url : Text} {F : Failure → Machine → Prop} :
    Meets m₀.Warns (fun r m => m₀.Warns m ∧ ∀ reply, r = .ok reply → m₀.replies.get? url = some reply) F
      (liftM (Host.request url : StateM Machine (Except Text Reply))) := by
  apply Meets.lift
  rintro m r m' ⟨ws, rfl⟩ hrun
  have hsame : (m₀.warned ws).replies = m₀.replies := rfl
  unfold Machine.run at hrun
  simp only [Host.request, hsame] at hrun
  cases hreply : m₀.replies.get? url with
  | some reply =>
    rw [hreply] at hrun
    obtain ⟨rfl, rfl⟩ := Prod.mk.inj hrun
    exact ⟨⟨ws, rfl⟩, fun reply' h => by rw [Except.ok.inj h]⟩
  | none =>
    rw [hreply] at hrun
    obtain ⟨rfl, rfl⟩ := Prod.mk.inj hrun
    exact ⟨⟨ws, rfl⟩, fun reply' h => by cases h⟩

omit hnamed in
theorem meets_fetchFrom (asked : Text) (redirects : Nat) (url : Url) :
    Meets m₀.Warns (fun t m => m₀.Warns m ∧ m₀.Gives t) (fun e _ => e.IsOf Complaint.OfDescription named m₀)
      (fetchFrom asked redirects url) := by
  induction redirects generalizing url with
  | zero =>
    unfold fetchFrom
    refine .bind meets_request fun r => ?_
    dsimp only
    split
    · exact .throw fun _ _ => trivial
    split
    · exact .throw fun _ _ => trivial
    split
    · exact .pure fun m hm => ⟨hm.1, .inr ⟨_, _, hm.2 _ rfl, rfl⟩⟩
    · exact .throw fun _ _ => trivial
  | succ redirects ih =>
    unfold fetchFrom
    refine .bind meets_request fun r => ?_
    dsimp only
    split
    · exact .throw fun _ _ => trivial
    split
    · exact fun m hm => ih _ m hm.1
    split
    · exact .pure fun m hm => ⟨hm.1, .inr ⟨_, _, hm.2 _ rfl, rfl⟩⟩
    · exact .throw fun _ _ => trivial

omit hnamed in
private theorem error_of_bind {β : Type} {x : Except Failure α} {f : α → Except Failure β} (h : x >>= f = .error e) :
    x = .error e ∨ ∃ a, f a = .error e := by
  cases x with
  | error e' => exact .inl (congrArg Except.error (Except.error.inj h))
  | ok a => exact .inr ⟨a, h⟩

omit hnamed in
theorem isOf_parseDescription {source t : Text} (ht : m₀.Gives t) (h : parseDescription source t = .error e) :
    e.IsOf Complaint.OfDescription named m₀ := by
  unfold parseDescription at h
  dsimp only at h
  split at h <;> rcases error_of_bind h with h | ⟨v, h⟩
  case isTrue.inl =>
    cases hread : Json.read t with
    | ok v =>
      rw [hread] at h
      cases h
    | error r =>
      rw [hread] at h
      obtain rfl := Except.error.inj h
      cases r with
      | malformed => trivial
      | tooManyDigits => exact .tooManyDigits ht hread
  case isFalse.inl =>
    cases hread : Yaml.read t with
    | ok v =>
      rw [hread] at h
      cases h
    | error r =>
      rw [hread] at h
      obtain rfl := Except.error.inj h
      dsimp only
      split
      · trivial
      · next hr => exact .value ht hread hr
  -- What is read is no object.
  all_goals
    split at h
    · cases h
    · obtain rfl := Except.error.inj h
      trivial

theorem meets_loadDescription {location : Text}
    (hpath : isRemote location = false → ∀ name ∈ (directory / Path.ofText location).names, named name) :
    Meets m₀.Warns (fun _ => m₀.Warns) (fun e _ => e.IsOf Complaint.OfDescription named m₀)
      (loadDescription directory location) := by
  have hparse {source t : Text} : Meets (fun m => m₀.Warns m ∧ m₀.Gives t) (fun _ => m₀.Warns)
      (fun e _ => e.IsOf Complaint.OfDescription named m₀) (liftM (parseDescription source t)) :=
    .liftExcept (fun _ _ _ hm => hm.1) fun _ _ h hm => isOf_parseDescription hm.2 h
  unfold loadDescription
  split
  · exact .bind (meets_fetchFrom _ _ _) fun t => hparse
  · next hremote =>
    have hnames := hpath (by simpa using hremote)
    have hI := fun m => Machine.Warns.descends (m := m) hnamed
    apply Meets.bind (J := fun t m => m₀.Warns m ∧ m₀.Gives t) ?_ fun t => hparse
    unfold readDescription
    apply Meets.bind (meets_isFile hI hnames)
    intro b
    cases b with
    | false => exact .throw fun _ _ => trivial
    | true =>
      refine (meets_readText hI hnames trivial).mono ?_ fun _ _ => id
      rintro t m ⟨⟨ws, rfl⟩, p, u, hp, rfl⟩
      exact ⟨⟨ws, rfl⟩, .inl ⟨p, u, hp, rfl⟩⟩

theorem meets_readAliasFile (hpath : ∀ name ∈ (output.child aliasFileName).names, named name) :
    Meets m₀.Warns (fun _ => m₀.Warns) (fun e _ => e.IsOf (fun _ => False) named m₀) (readAliasFile output) := by
  have hI := fun m => Machine.Warns.descends (m := m) hnamed
  unfold readAliasFile
  apply Meets.bind (meets_isFile hI hpath)
  intro b
  cases b with
  | false => exact .pure fun _ => id
  | true =>
    rw [if_neg (by simp)]
    apply Meets.bind (J := fun r m => m₀.Warns m ∧ m₀.files.read (output.child aliasFileName) = r)
    · apply Meets.lift
      rintro m r m' ⟨ws, rfl⟩ hrun
      obtain ⟨rfl, rfl⟩ := Prod.mk.inj hrun
      exact ⟨⟨ws, rfl⟩, rfl⟩
    · have hwarn {w : Warning} {r : Except FileError Content} {table : Table Text} :
          Meets (fun m => m₀.Warns m ∧ m₀.files.read (output.child aliasFileName) = r) (fun _ => m₀.Warns)
            (fun e _ => e.IsOf (fun _ => False) named m₀) (warn w >>= fun _ => pure table) :=
        .bind (fun m hm => meets_warn (fun _ h => h.warned _) m hm.1) fun _ => .pure fun _ => id
      intro r
      split
      · exact .throw fun m hm => .file (blamesName_of_hasZero hpath (hasZero_of_read hm.2))
      · exact hwarn
      · refine .throw fun m hm => ?_
        obtain ⟨p, hf⟩ := read_eq_ok_iff.1 hm.2
        exact .notText (get?_of_find_file hf)
      · split
        · next hread =>
          refine .throw fun m hm => ?_
          obtain ⟨p, hf⟩ := read_eq_ok_iff.1 hm.2
          exact .tooManyDigits (.inl ⟨p, _, get?_of_find_file hf, rfl⟩) hread
        · exact hwarn
        · exact .pure fun _ hm => hm.1
        · exact hwarn

theorem meets_loadAliases {configured : Table Text}
    (hpath : ∀ name ∈ (output.child aliasFileName).names, named name) :
    Meets m₀.Warns (fun _ => m₀.Warns) (fun e _ => e.IsOf (fun _ => False) named m₀)
      (loadAliases output configured) := by
  unfold loadAliases
  split
  · exact .pure fun _ => id
  · exact .bind (meets_readAliasFile hnamed hpath) fun mapping => .pure fun _ => id

end Loading

/-! ## Changing files -/

/-- The files of the machine stem from those of another one. -/
def Machine.Stems (named : Text → Prop) (m₀ m : Machine) : Prop := Descends named m₀.files m.files

theorem Machine.Stems.of_files (hnamed : ∀ name, m₀.files.Mentions name → named name) (h : m.files = m₀.files) :
    m₀.Stems named m := by
  unfold Stems
  rw [h]
  exact ⟨fun _ _ => id, hnamed⟩

section Changing

variable (hclosed : IsClosed named) (hpath : ∀ name ∈ path.names, named name)

include hclosed hpath in
theorem meets_writeText {c : Complaint} (hc : told c) {t : Text} :
    Meets (m₀.Stems named) (fun _ => m₀.Stems named) (fun e _ => e.IsOf told named m₀)
      (writeText (.complaint c) path t) := by
  apply Meets.change
  · intro m files hm hw
    exact Descends.write hclosed hpath hm hw
  · intro m e hm hw
    apply isOf_failure hc
    rintro rfl
    exact blamesName_of_hasZero hpath (hasZero_of_write hw)

include hpath in
theorem meets_removeOutput :
    Meets (m₀.Stems named) (fun _ => m₀.Stems named) (fun e _ => e.IsOf Complaint.OfOutput named m₀)
      (removeOutput path) := by
  apply Meets.change
  · intro m files hm hr
    exact Descends.remove hm hr
  · intro m e hm hr
    refine isOf_failure (c := .output (.stuck path.toText)) trivial ?_
    rintro rfl
    exact blamesName_of_hasZero hpath (hasZero_of_remove hr)

include hclosed hpath in
theorem meets_makeOutput :
    Meets (m₀.Stems named) (fun _ => m₀.Stems named) (fun e _ => e.IsOf Complaint.OfOutput named m₀)
      (makeOutput path) := by
  have hrun (m : Machine) : m.run (Host.makeDirectories path : StateM Machine (Except FileError Unit)) =
      ((m.files.makeDirectories path).1, { m with files := (m.files.makeDirectories path).2 }) := rfl
  apply Meets.attempt
  · intro m u m' hm h
    obtain ⟨-, rfl⟩ := Prod.mk.inj (hrun m ▸ h)
    exact Descends.makeDirectories hclosed hpath hm
  · intro m e m' hm h
    obtain ⟨he, rfl⟩ := Prod.mk.inj (hrun m ▸ h)
    refine isOf_failure (c := .output (.directory path.toText)) trivial ?_
    rintro rfl
    exact blamesName_of_hasZero hpath (hasZero_of_makeDirectories he)

include hclosed in
theorem meets_saveAliases {a : Aliases} (houtput : ∀ name ∈ output.names, named name)
    (hfile : ∀ name ∈ (output.child aliasFileName).names, named name) :
    Meets (m₀.Stems named) (fun _ => m₀.Stems named) (fun e _ => e.IsOf Complaint.OfOutput named m₀)
      (saveAliases output a) := by
  unfold saveAliases
  split
  · exact .pure fun _ => id
  · exact .bind (meets_makeOutput hclosed houtput) fun _ => meets_writeText hclosed hfile trivial

omit hclosed in
private theorem names_child (hpath : ∀ name ∈ path.names, named name) {final : Text}
    (hfinal : ∀ name ∈ (Path.ofText final).names, named name) : ∀ name ∈ (path.child final).names, named name := by
  intro name hname
  cases habs : (Path.ofText final).isAbsolute with
  | true =>
    rw [Path.child, show path / Path.ofText final = Path.ofText final by simp [HDiv.hDiv, Path.join, habs]] at hname
    exact hfinal name hname
  | false =>
    rw [Path.child, Path.join_names habs] at hname
    rcases List.mem_append.1 hname with hname | hname
    · exact hpath name hname
    · exact hfinal name hname

theorem meets_clearOutput (houtput : ∀ name ∈ output.names, named name) (keep : List Text) :
    Meets (m₀.Stems named) (fun _ => m₀.Stems named) (fun e _ => e.IsOf Complaint.OfOutput named m₀)
      (clearOutput output keep) := by
  unfold clearOutput
  apply Meets.bind (meets_isDirectory (fun _ => id) houtput)
  intro b
  cases b with
  | false => exact .pure fun _ hm => hm.1
  | true =>
    rw [if_pos rfl]
    -- Every name that is listed is known, and goes on being so while entries are removed.
    apply Meets.bind (J := fun names m => m₀.Stems named m ∧
      ∀ final ∈ names, ∀ name ∈ (Path.ofText final).names, named name)
    · apply Meets.attempt
      · intro m names m' hm hrun
        obtain ⟨hnames, rfl⟩ := Prod.mk.inj hrun
        refine ⟨hm.1, fun final hfinal name hname => hm.1.mentioned name (.inr ?_)⟩
        obtain ⟨e, he, hlast⟩ := exists_entry_of_names hnames hfinal
        exact ⟨e, he, final, hlast, hname⟩
      · intro m e m' hm hrun
        obtain ⟨hnames, -⟩ := Prod.mk.inj hrun
        obtain ⟨p, hf⟩ := hm.2 rfl
        simp [FileTree.names, hf] at hnames
    · intro names m hm
      refine Meets.forM (fun final hfinal => ?_) m hm.1
      exact meets_removeOutput (names_child houtput (hm.2 final (List.mem_filter.1 hfinal).1))

include hclosed in
theorem meets_generateGroup {types : List NamedType} {g : Text × List Operation}
    (hdirectory : ∀ name ∈ (output.child g.1).names, named name)
    (htypes : ∀ name ∈ (typesPath output g.1).names, named name)
    (hfunctions : ∀ name ∈ (functionsPath output g.1).names, named name) :
    Meets (m₀.Stems named) (fun _ => m₀.Stems named) (fun e _ => e.IsOf Complaint.OfOutput named m₀)
      (generateGroup s output types g) := by
  have hwrite {path : Path} (hpath : ∀ name ∈ path.names, named name) {t : Text} :
      Meets (m₀.Stems named) (fun _ => m₀.Stems named) (fun e _ => e.IsOf Complaint.OfOutput named m₀)
        (writeOutput path t) := meets_writeText hclosed hpath trivial
  unfold generateGroup
  dsimp only
  refine .bind ?_ fun action => .pure fun _ => id
  unfold writeGroup
  dsimp only
  apply Meets.bind (meets_makeOutput hclosed hdirectory)
  intro _
  apply Meets.bind (hwrite htypes)
  intro _
  apply Meets.bind (meets_readOutput? (fun _ => id) hfunctions)
  intro existing
  split
  · apply Meets.bind (meets_warn fun _ => id)
    intro _
    exact .bind (hwrite hfunctions) fun _ => .pure fun _ => id
  · exact .bind (hwrite hfunctions) fun _ => .pure fun _ => id

end Changing

end ClientGen
