import ClientGen.Proofs.Project.Conditions
/-!
# Groups that are written halfway

The file of types of a group is written before its file of functions is looked at. So a group that cannot be written
keeps its functions, but may be left with new types.
-/

namespace ClientGen

open Text ClientGen.Task FileTree

variable {m m' : Machine} {output : Path} {group types functions : Text} {e : Failure} {path : Path}

namespace FileTree

variable {t t' : FileTree}

/-- The file at a path was left alone: where the path led somewhere the same is read, and what it leads to now was there
with the same content. -/
structure Intact (t t' : FileTree) (path : Path) : Prop where
  read_eq : ∀ r, t.find true path = .ok r → ∀ c, t'.read path = .ok c ↔ t.read path = .ok c
  old : ∀ p c, t'.find true path = .ok (p, some (.file c)) → t.contentAt? p = some c

theorem contentAt?_of_find {p : Place} {c : Content} (h : t.find true path = .ok (p, some (.file c))) :
    t.contentAt? p = some c := by
  unfold contentAt?
  rw [get?_of_find_file h]

theorem OnlyChanges.intact {paths : Path → Prop} (h : OnlyChanges paths t t')
    (hsame : ∀ p, t'.FileAt path p → t'.contentAt? p = t.contentAt? p) : Intact t t' path where
  old p c hf := (hsame p ⟨c, hf⟩).symm.trans (contentAt?_of_find hf)
  read_eq r hr c := by
    obtain ⟨p, entry⟩ := r
    constructor
    · intro hread
      obtain ⟨q, hq⟩ := read_eq_ok_iff.1 hread
      have hold := (hsame q ⟨c, hq⟩).symm.trans (contentAt?_of_find hq)
      cases entry with
      | some entry =>
        obtain ⟨entry', hf, hentry⟩ := find_kept h.kept h.here_eq hr
        obtain ⟨rfl, hfile⟩ := Prod.mk.inj (Except.ok.inj (hf.symm.trans hq))
        obtain rfl := Option.some.inj hfile
        cases hentry with
        | file c' =>
          rw [contentAt?_of_find hr] at hold
          exact read_eq_ok_iff.2 ⟨_, Option.some.inj hold ▸ hr⟩
      | none =>
        -- the place was free, and what came to be there is no file
        have hfree := get?_of_find_free hr
        have hlink : ∀ target, t'.get? p ≠ some (.link target) := by
          intro target hlink
          rcases h.changed p (by rw [hlink, hfree]; nofun) with ⟨_, -, c', hfile⟩ | ⟨-, hdirectory⟩
          · rw [get?_of_find_file hfile] at hlink
            cases hlink
          · rw [hdirectory] at hlink
            cases hlink
        have hf := find_of_free h.kept h.here_eq hr hlink
        obtain ⟨rfl, -⟩ := Prod.mk.inj (Except.ok.inj (hf.symm.trans hq))
        simp [contentAt?, hfree] at hold
    · intro hread
      obtain ⟨q, hq⟩ := read_eq_ok_iff.1 hread
      obtain ⟨entry', hf, hentry⟩ := find_kept h.kept h.here_eq hq
      cases hentry with
      | file _ c' =>
        have hcontent := hsame q ⟨c', hf⟩
        rw [contentAt?_of_find hf, contentAt?_of_find hq] at hcontent
        exact read_eq_ok_iff.2 ⟨q, Option.some.inj hcontent ▸ hf⟩

end FileTree

/-! ## Parts that fail -/

theorem fails_makeOutput (h : (makeOutput path : Task (StateM Machine) Unit).Fails m e m') :
    ∃ e', m.files.makeDirectories path = (.error e', m'.files) := by
  obtain ⟨e', hrun, -⟩ := fails_attempt.1 h
  obtain ⟨he, rfl⟩ := Prod.mk.inj hrun
  exact ⟨e', Prod.ext he rfl⟩

theorem not_canWrite_of_fails {failure : Failure} {u : Text}
    (h : (writeText failure path u : Task (StateM Machine) Unit).Fails m e m') : ¬m.files.CanWrite path := by
  intro hcan
  obtain ⟨files, hw⟩ := hcan.write (.text u)
  have hends : (writeText failure path u : Task (StateM Machine) Unit).Ends m () { m with files } :=
    ends_writeText.2 ⟨files, hw, rfl⟩
  cases hends.symm.trans h

theorem fails_readOutput? (h : (readOutput? path : Task (StateM Machine) (Option Text)).Fails m e m') :
    (∃ bs, m.files.read path = .ok (.bytes bs)) ∨ ¬m.files.CanWrite path := by
  by_contra hno
  obtain ⟨hbytes, hcan⟩ := not_or.1 hno
  obtain ⟨p, hf | ⟨c, hf⟩⟩ := not_not.1 hcan
  · have hfile : m.files.isFile path = .ok false := by
      unfold FileTree.isFile leadsTo
      rw [hf]
      rfl
    cases (ends_readOutput?.2 ⟨.inl ⟨hfile, rfl⟩, rfl⟩).symm.trans h
  · cases c with
    | bytes bs => exact hbytes ⟨bs, read_eq_ok_iff.2 ⟨p, hf⟩⟩
    | text old => cases (ends_readOutput?_of_find hf).symm.trans h

/-! ## Groups -/

/-- What becomes of the files when writing a group fails: nothing, where the types cannot be written, or else the new
types, where the functions cannot be read or written. -/
inductive LeftHalfway (output : Path) (group types : Text) (t t' : FileTree) : Prop
  | before (hstuck : ¬t'.CanWrite (typesPath output group)) (hsame : ∀ p, t'.contentAt? p = t.contentAt? p)
  | between (htypes : t'.read (typesPath output group) = .ok (.text types))
    (hsame : ∀ p, t'.contentAt? p ≠ t.contentAt? p → t'.FileAt (typesPath output group) p)
    (hstuck : (∃ bs, t'.read (functionsPath output group) = .ok (.bytes bs)) ∨
      ¬t'.CanWrite (functionsPath output group))

theorem leftHalfway_of_fails
    (h : (writeGroup output group types functions : Task (StateM Machine) MergeAction).Fails m e m') :
    OnlyChanges (· = typesPath output group) m.files m'.files ∧ LeftHalfway output group types m.files m'.files := by
  have hmake : OnlyChanges (· = typesPath output group) m.files (m.files.makeDirectories (output.child group)).2 :=
    .makeDirectories m.files (output.child group)
  have hmade := (makeDirectories_sameFiles m.files (output.child group)).content_eq
  unfold writeGroup at h
  dsimp only at h
  rcases fails_bind.1 h with h | ⟨_, m₁, hdirectory, h⟩
  · -- no directory for the group
    obtain ⟨e', hfails⟩ := fails_makeOutput h
    rw [hfails] at hmake hmade
    refine ⟨hmake, .before ?_ hmade⟩
    rintro ⟨p, hp⟩
    obtain ⟨d, hd⟩ : ∃ d, m'.files.find true (output.child group) = .ok (d, some .directory) := by
      rcases hp with hp | ⟨c, hp⟩
      · exact find_directory isFileName_typesFileName hp
      · exact find_directory isFileName_typesFileName hp
    exact not_directory_of_makeDirectories hfails d hd
  obtain ⟨files₁, hmakes, rfl⟩ := ends_makeOutput.1 hdirectory
  rw [hmakes] at hmake hmade
  rcases fails_bind.1 h with h | ⟨_, m₂, htypes, h⟩
  · -- no file of types
    obtain rfl := fails_writeText h
    exact ⟨hmake, .before (not_canWrite_of_fails h) hmade⟩
  obtain ⟨files₂, hw, rfl⟩ := ends_writeText.1 htypes
  have hwrite := hmake.trans (OnlyChanges.write rfl hw)
  obtain ⟨p, -, hp, hput, hfind, -⟩ := write_put hw
  have hread : files₂.read (typesPath output group) = .ok (.text types) := read_eq_ok_iff.2 ⟨p, hfind⟩
  have hsame (q : Place) (hq : files₂.contentAt? q ≠ m.files.contentAt? q) :
      files₂.FileAt (typesPath output group) q := by
    obtain rfl : q = p := by
      by_contra hne
      refine hq ((contentAt?_congr ?_).trans (hmade q))
      rw [hput]
      exact (get?_put hp).trans (if_neg hne)
    exact ⟨_, hfind⟩
  -- from here on, nothing but the file of functions can fail, and no file changes before it does
  have hbetween {m₃ : Machine} (hfiles : m₃.files = files₂)
      (hstuck : (∃ bs, m₃.files.read (functionsPath output group) = .ok (.bytes bs)) ∨
        ¬m₃.files.CanWrite (functionsPath output group)) :
      OnlyChanges (· = typesPath output group) m.files m₃.files ∧ LeftHalfway output group types m.files m₃.files := by
    rw [hfiles] at hstuck ⊢
    exact ⟨hwrite, .between hread hsame hstuck⟩
  rcases fails_bind.1 h with h | ⟨existing, m₃, hexisting, h⟩
  · have hfiles := keepsFiles_readOutput?.fails h
    refine hbetween hfiles ?_
    rw [hfiles]
    exact fails_readOutput? h
  have hfiles₃ := keepsFiles_readOutput?.ends hexisting
  have hlast {m₄ : Machine} (hfiles : m₄.files = files₂) {u : Text} {action : MergeAction}
      (h : (writeOutput (functionsPath output group) u >>= fun _ => pure action :
        Task (StateM Machine) MergeAction).Fails m₄ e m') :
      OnlyChanges (· = typesPath output group) m.files m'.files ∧ LeftHalfway output group types m.files m'.files := by
    rcases fails_bind.1 h with h | ⟨_, _, -, h⟩
    · obtain rfl := fails_writeText h
      exact hbetween hfiles (.inr (not_canWrite_of_fails h))
    · exact absurd h fails_pure
  split at h
  · rcases fails_bind.1 h with h | ⟨_, m₄, hwarn, h⟩
    · exact absurd h fails_lift
    · exact hlast ((keepsFiles_warn.ends hwarn).trans hfiles₃) h
  · exact hlast hfiles₃ h

/-- A group that cannot be written keeps its functions. It keeps its types as well, unless they could be written: then
they are the new ones, and the functions could not be read or written. No other file comes, changes or goes. -/
theorem writeGroup_fails
    (h : (writeGroup output group types functions : Task (StateM Machine) MergeAction).Fails m e m') :
    Intact m.files m'.files (functionsPath output group) ∧
      (¬m'.files.CanWrite (typesPath output group) ∧ Intact m.files m'.files (typesPath output group) ∧
          (∀ p, m'.files.contentAt? p = m.files.contentAt? p) ∨
        m'.files.read (typesPath output group) = .ok (.text types) ∧
          (∀ p, m'.files.contentAt? p ≠ m.files.contentAt? p → m'.files.FileAt (typesPath output group) p) ∧
          ((∃ bs, m'.files.read (functionsPath output group) = .ok (.bytes bs)) ∨
            ¬m'.files.CanWrite (functionsPath output group))) := by
  obtain ⟨hchanges, hleft⟩ := leftHalfway_of_fails h
  cases hleft with
  | before hstuck hsame =>
    exact ⟨hchanges.intact fun p _ => hsame p, .inl ⟨hstuck, hchanges.intact fun p _ => hsame p, hsame⟩⟩
  | between htypes hsame hstuck =>
    refine ⟨hchanges.intact fun p hfunctions => ?_, .inr ⟨htypes, hsame, hstuck⟩⟩
    by_contra hne
    -- the functions would stand where the types do, and could be read and written
    obtain ⟨c, hf⟩ := hfunctions
    obtain ⟨q, hq⟩ := read_eq_ok_iff.1 htypes
    obtain ⟨c', hf'⟩ := hsame p hne
    obtain ⟨rfl, hc'⟩ := Prod.mk.inj (Except.ok.inj (hf'.symm.trans hq))
    have hplace := (get?_of_find_file hf).symm.trans (get?_of_find_file hq)
    obtain rfl : c = .text types := by simpa using hplace
    rcases hstuck with ⟨bs, hbytes⟩ | hstuck
    · cases (read_eq_ok_iff.2 ⟨_, hf⟩).symm.trans hbytes
    · exact hstuck ⟨_, .inr ⟨_, hf⟩⟩

/-- A machine with the files of one group. -/
private def machineWith (types functions : Entry) : Machine where
  files :=
    { here := []
      entries :=
        [(["api"], .directory), (["api", "pets"], .directory), (["api", "pets", "types.ts"], types),
          (["api", "pets", "index.ts"], functions)] }

/-- A file of functions that is no text stays, behind new types. -/
theorem writeGroup_fails_of_bytes :
    let old := machineWith (.file (.text "export type Pet = string\n")) (.file (.bytes [255]))
    let new := machineWith (.file (.text "export type Pet = number\n")) (.file (.bytes [255]))
    (writeGroup "api".toList "pets" "export type Pet = number\n" [] : Task (StateM Machine) MergeAction).Fails old
        (.accident .notText) new ∧
      Intact old.files new.files (functionsPath "api".toList "pets") ∧
      new.files.read (typesPath "api".toList "pets") = .ok (.text "export type Pet = number\n") := by
  intro old new
  have hfails : (writeGroup "api".toList "pets" "export type Pet = number\n" [] :
      Task (StateM Machine) MergeAction).Fails old (.accident .notText) new := by
    unfold Task.Fails
    decide +kernel
  obtain ⟨hfunctions, ⟨hstuck, -⟩ | ⟨htypes, -⟩⟩ := writeGroup_fails hfails
  · exact absurd ⟨["api", "pets", "types.ts"], .inr ⟨_, rfl⟩⟩ hstuck
  · exact ⟨hfails, hfunctions, htypes⟩

/-- Where a directory stands in the place of the functions, writing the group fails and leaves new types. -/
theorem writeGroup_fails_behind_types :
    let old := machineWith (.file (.text "export type Pet = string\n")) .directory
    let new := machineWith (.file (.text "export type Pet = number\n")) .directory
    (writeGroup "api".toList "pets" "export type Pet = number\n" [] : Task (StateM Machine) MergeAction).Fails old
        (.complaint (.output (.unwritable "api/pets/index.ts"))) new ∧
      old.files.read (typesPath "api".toList "pets") = .ok (.text "export type Pet = string\n") ∧
      new.files.read (typesPath "api".toList "pets") = .ok (.text "export type Pet = number\n") := by
  unfold Task.Fails
  decide +kernel

end ClientGen
