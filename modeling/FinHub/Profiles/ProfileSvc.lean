import FinHub.Lib.Session
import FinHub.Profiles.Deletes
import FinHub.Profiles.Passwords

/-!
# FinHub.Profiles.ProfileSvc

The profiles of the database, `services/profile_svc.py`: created, renamed, configured, unlocked and deleted.

Every call opens a connection of its own, and what a call has not committed when it raises is lost with it.

* `ProfileCall.work_triple`, `ProfileCall.step`: what a call does to its session, and so to the database.
* `profileRuns_laws`: what no sequence of calls changes.
* `unlock_after`: the passwords that a profile accepts, however long after its creation.
-/

namespace FinHub

open Db (Work Session)
open Tabular Texts

structure ProfileCreate where
  name : String
  password : Option String := none

structure ProfileUpdate where
  name : Option String := none
  defaultFiscalRule : Option String := none
  timezone : Option String := none

structure ProfileResponse where
  id : ℕ
  name : String
  hasPassword : Bool
  defaultFiscalRule : Option String
  timezone : String
  createdAt : String
  deriving DecidableEq

inductive ProfileSvcError where
  | profile (e : ProfileError)
  | profileNameTaken (name : String)
  | emptyName
  | invalidRuleset (ruleset : String)
  | invalidTimezone (timezone : String)
  | invalidPassword
  | assertionError
  deriving DecidableEq

def ProfileSvcError.message : ProfileSvcError → String
  | profile e => e.message
  | profileNameTaken name => s!"Profile '{name}' already exists"
  | emptyName => "Profile name cannot be empty"
  | invalidRuleset ruleset => s!"Invalid ruleset: {ruleset}"
  | invalidTimezone timezone => s!"Invalid timezone: {timezone}"
  | invalidPassword => "Incorrect password for profile"
  | assertionError => ""

/-- `name.strip()`. -/
def stripped (name : String) : String := String.ofList (strip name.toList)

/-! ## Queries -/

namespace Store

variable (s : Store)

/-- `get_profile`, which selects no timezone. -/
def getProfile (profile_id : ℕ) : Option ProfileRow :=
  (s.profiles.get? profile_id).map fun p => { p with timezone := none }

def nameTaken (name : String) : Bool := s.profiles.rows.any fun r => r.2.name == name

def insertProfile (row : ProfileRow) : Store := { s with profiles := s.profiles.insert row }

def modifyProfile (profile_id : ℕ) (f : ProfileRow → ProfileRow) : Store :=
  { s with profiles := s.profiles.modify profile_id f }

end Store

namespace ProfileSvc

variable (z : Zones) (pbkdf2 : Pbkdf2)

/-- `_to_response`. -/
def toResponse (profile_id : ℕ) (profile : ProfileRow) : ProfileResponse where
  id := profile_id
  name := profile.name
  hasPassword := profile.passwordHash.isSome
  defaultFiscalRule := profile.defaultFiscalRule
  timezone := Zones.orTokyo profile.timezone
  createdAt := profile.createdAt

/-- The profile, or `ProfileNotFound`. -/
def existing (profile_id : ℕ) : Work Store ProfileSvcError ProfileRow := do
  let profile ← Work.read fun s => s.getProfile profile_id
  match profile with
  | some profile => pure profile
  | none => Work.raise (.profile (.profileNotFound profile_id))

/-- The answer of a call that has written. -/
def answer (profile_id : ℕ) : Work Store ProfileSvcError ProfileResponse := do
  let profile ← Work.read fun s => s.getProfile profile_id
  match profile with
  | some profile => pure (toResponse profile_id profile)
  | none => Work.raise .assertionError

def get (profile_id : ℕ) : Work Store ProfileSvcError ProfileResponse := do
  let profile ← existing profile_id
  pure (toResponse profile_id profile)

/-- A name as it is stored, or `InvalidProfileName`. -/
def validName (name : String) : Work Store ProfileSvcError String :=
  if stripped name = "" then Work.raise .emptyName else pure (stripped name)

/-- `ProfileNameTaken`, except for a name that the profile has already. -/
def checkFree (own : Option String) (name : String) : Work Store ProfileSvcError Unit := do
  let taken ← Work.read fun s => s.nameTaken name
  if own ≠ some name ∧ taken then Work.raise (.profileNameTaken name) else pure ()

/-- The hash of the password of a request, with the salt that was drawn for it. An empty one is none. -/
def newHash (salt : List UInt8) (password : Option String) : Option String :=
  (password.filter fun p => decide (p ≠ "")).map fun p => hashPassword pbkdf2 p salt

def create (body : ProfileCreate) (salt : List UInt8) (created_at : String) :
    Work Store ProfileSvcError ProfileResponse := do
  let name ← validName body.name
  checkFree none name
  let profile_id ← Work.write fun s => (s.profiles.next, s.insertProfile
    { name, passwordHash := newHash pbkdf2 salt body.password, timezone := some "Asia/Tokyo", createdAt := created_at })
  Work.commit
  answer profile_id

def rename (profile_id : ℕ) (name : String) : Work Store ProfileSvcError ProfileResponse := do
  let name ← validName name
  let profile ← existing profile_id
  checkFree (some profile.name) name
  Work.write fun s => ((), s.modifyProfile profile_id fun p => { p with name := name })
  Work.commit
  answer profile_id

def updateName (profile_id : ℕ) (profile : ProfileRow) : Option String → Work Store ProfileSvcError Unit
  | none => pure ()
  | some name => do
    let name ← validName name
    checkFree (some profile.name) name
    Work.write fun s => ((), s.modifyProfile profile_id fun p => { p with name := name })

def rulesets : List String := ["spain", "japan", "default", "latest", "none"]

def updateFiscalRule (profile_id : ℕ) : Option String → Work Store ProfileSvcError Unit
  | none => pure ()
  | some ruleset =>
    if rulesets.elem ruleset then
      Work.write fun s => ((), s.modifyProfile profile_id fun p => { p with defaultFiscalRule := some ruleset })
    else Work.raise (.invalidRuleset ruleset)

def updateTimezone (profile_id : ℕ) : Option String → Work Store ProfileSvcError Unit
  | none => pure ()
  | some timezone =>
    if (z.zoneInfo timezone).isSome then
      Work.write fun s => ((), s.modifyProfile profile_id fun p => { p with timezone := some timezone })
    else Work.raise (.invalidTimezone timezone)

/-- `update_profile`. -/
def update (profile_id : ℕ) (body : ProfileUpdate) : Work Store ProfileSvcError ProfileResponse := do
  let profile ← existing profile_id
  updateName profile_id profile body.name
  updateFiscalRule profile_id body.defaultFiscalRule
  updateTimezone z profile_id body.timezone
  Work.commit
  answer profile_id

/-- Whether a profile opens: it has no password, or a given one that is not empty passes. -/
def opens (profile : ProfileRow) (password : Option String) : Bool :=
  profile.passwordHash.isNone ||
    password.any fun p => decide (p ≠ "") && verifyPassword pbkdf2 p profile.passwordHash

def unlock (profile_id : ℕ) (password : Option String) : Work Store ProfileSvcError ProfileResponse := do
  let profile ← existing profile_id
  if opens pbkdf2 profile password then pure (toResponse profile_id profile) else Work.raise .invalidPassword

/-- `delete`, with its commit. -/
def remove (profile_id : ℕ) : Work Store ProfileSvcError Unit := do
  Work.stmt fun s =>
    match delete profile_id s with
    | (.ok (), s') => .ok ((), s')
    | (.error e, _) => .error (.profile e)
  Work.commit

/-- `seed_default_profile`, at a boot. -/
def seedDefaultProfile (created_at : String) : Work Store ProfileSvcError Unit := do
  let none_ ← Work.read fun s => s.profiles.rows.isEmpty
  if none_ then do
    Work.write fun s => ((), s.insertProfile { name := "Default", timezone := some "Asia/Tokyo", createdAt := created_at })
    Work.commit
  else pure ()

/-- `require_profile`: the profile that a request is for, by its header. -/
def requireProfile (s : Store) (x_profile_id : Option ℕ) : Option ℕ :=
  x_profile_id.filter fun p => (s.getProfile p).isSome

end ProfileSvc

/-- A call of the service, and what comes from outside: the salt of a hash and the time of an insert. -/
inductive ProfileCall where
  | seed (created_at : String)
  | get (profile_id : ℕ)
  | create (body : ProfileCreate) (salt : List UInt8) (created_at : String)
  | rename (profile_id : ℕ) (name : String)
  | update (profile_id : ℕ) (body : ProfileUpdate)
  | unlock (profile_id : ℕ) (password : Option String)
  | delete (profile_id : ℕ)

section

variable (z : Zones) (pbkdf2 : ProfileSvc.Pbkdf2)

open ProfileSvc

def ProfileCall.work : ProfileCall → Work Store ProfileSvcError (Option ProfileResponse)
  | seed created_at => do seedDefaultProfile created_at; pure none
  | get profile_id => do let response ← ProfileSvc.get profile_id; pure (some response)
  | create body salt created_at => do let response ← ProfileSvc.create pbkdf2 body salt created_at; pure (some response)
  | rename profile_id name => do let response ← ProfileSvc.rename profile_id name; pure (some response)
  | update profile_id body => do let response ← ProfileSvc.update z profile_id body; pure (some response)
  | unlock profile_id password => do let response ← ProfileSvc.unlock pbkdf2 profile_id password; pure (some response)
  | delete profile_id => do ProfileSvc.remove profile_id; pure none

def profileRuns (s : Store) (calls : List ProfileCall) : Store :=
  calls.foldl (fun s call => (call.work z pbkdf2).saved s) s

end

/-! ## What a call does -/

-- The rules of `Work` would otherwise run a service on the text of a name.
attribute [local irreducible] ProfileSvc.validName

/-- A name as `strip` leaves it, and not blank. -/
def ValidName (name : String) : Prop := stripped name = name ∧ name ≠ ""

/-- The profile is rewritten, with the password and the date it has, under its name or a free one. -/
def Store.Edits (s : Store) (profile_id : ℕ) (s' : Store) : Prop :=
  ∃ f, s' = s.modifyProfile profile_id f ∧
    (∀ p, (f p).passwordHash = p.passwordHash ∧ (f p).createdAt = p.createdAt) ∧
    ∀ p, (profile_id, p) ∈ s.profiles.rows →
      (f p).name = p.name ∨ ValidName (f p).name ∧ s.nameTaken (f p).name = false

/-- What a call can do to the database. -/
inductive ProfileStep (s : Store) : Store → Prop
  | same : ProfileStep s s
  | added (row : ProfileRow) (valid : ValidName row.name) (free : s.nameTaken row.name = false) :
    ProfileStep s (s.insertProfile row)
  | changed (profile_id : ℕ) (s' : Store) (edits : s.Edits profile_id s') : ProfileStep s s'
  | deleted (profile_id : ℕ) (many : 1 < s.profiles.rows.length) : ProfileStep s (ProfileSvc.purge profile_id s)

theorem validName_stripped {name : String} (h : stripped name ≠ "") : ValidName (stripped name) := by
  refine ⟨?_, h⟩
  unfold stripped
  rw [String.toList_ofList, strip_strip]

theorem validName_default : ValidName "Default" := ⟨by decide, by decide⟩

namespace Store

variable {s s' : Store} {profile_id : ℕ}

theorem nameTaken_iff {name : String} : s.nameTaken name = true ↔ ∃ r ∈ s.profiles.rows, r.2.name = name := by
  unfold nameTaken
  simp

theorem Edits.refl (s : Store) (profile_id : ℕ) : s.Edits profile_id s := by
  refine ⟨id, ?_, fun p => ⟨rfl, rfl⟩, fun p _ => .inl rfl⟩
  have hself : s.profiles.modify profile_id id = s.profiles := Table.modify_eq_self _ fun _ _ => rfl
  unfold modifyProfile
  rw [hself]

/-- A change of other columns. -/
theorem Edits.andThen (h : s.Edits profile_id s') {g : ProfileRow → ProfileRow}
    (hg : ∀ p, (g p).passwordHash = p.passwordHash ∧ (g p).createdAt = p.createdAt ∧ (g p).name = p.name) :
    s.Edits profile_id (s'.modifyProfile profile_id g) := by
  obtain ⟨f, rfl, hkeeps, hname⟩ := h
  refine ⟨g ∘ f, ?_, fun p => ⟨(hg _).1.trans (hkeeps p).1, (hg _).2.1.trans (hkeeps p).2⟩, fun p hp => ?_⟩
  · unfold modifyProfile
    rw [Table.modify_modify]
  · rw [Function.comp_apply, (hg _).2.2]
    exact hname p hp

theorem Edits.get?_isSome (h : s.Edits profile_id s') {row : ProfileRow}
    (hrow : s.profiles.get? profile_id = some row) : ∃ row', s'.profiles.get? profile_id = some row' := by
  obtain ⟨f, rfl, -, -⟩ := h
  refine ⟨f row, ?_⟩
  rw [Table.get?_eq_some_iff] at hrow ⊢
  exact Table.mem_modify.mpr (.inr ⟨rfl, row, hrow, rfl⟩)

end Store

namespace ProfileSvc

variable {z : Zones} {pbkdf2 : Pbkdf2} {P : Session Store → Prop} {E : ProfileSvcError → Session Store → Prop}
  {s : Store} {profile_id : ℕ}

/-- What is raised before the first write leaves the database. -/
theorem opened_error (_ : ProfileSvcError) (σ : Session Store) (h : σ = .ofDb s) : σ.committed = s := by
  rw [h]
  rfl

theorem validName_triple (hE : ∀ e σ, P σ → E e σ) (name : String) :
    Work.Triple P (validName name) (fun name' σ => P σ ∧ name' = stripped name ∧ stripped name ≠ "") E := by
  unfold validName
  split_ifs with hblank
  · exact .raise fun σ hσ => hE _ σ hσ
  · exact .pure fun σ hσ => ⟨hσ, rfl, hblank⟩

theorem existing_triple (hE : ∀ e σ, P σ → E e σ) (profile_id : ℕ) :
    Work.Triple P (existing profile_id)
      (fun p σ => P σ ∧ ∃ row, σ.working.profiles.get? profile_id = some row ∧ p = { row with timezone := none }) E := by
  intro σ hσ
  unfold existing Store.getProfile
  rw [Work.read_bind]
  cases hrow : σ.working.profiles.get? profile_id with
  | none => exact hE _ σ hσ
  | some row => exact ⟨hσ, row, hrow, rfl⟩

theorem checkFree_triple (hE : ∀ e σ, P σ → E e σ) (own : Option String) (name : String) :
    Work.Triple P (checkFree own name)
      (fun _ σ => P σ ∧ (own = some name ∨ σ.working.nameTaken name = false)) E := by
  intro σ hσ
  unfold checkFree
  rw [Work.read_bind]
  by_cases hown : own = some name
  · rw [if_neg fun h => h.1 hown]
    exact ⟨hσ, .inl hown⟩
  · cases htaken : σ.working.nameTaken name with
    | true =>
      rw [if_pos ⟨hown, rfl⟩]
      exact hE _ σ hσ
    | false =>
      rw [if_neg fun h => Bool.false_ne_true h.2]
      exact ⟨hσ, .inr htaken⟩

/-- A row that is there is answered with. -/
theorem answer_triple (hP : ∀ σ, P σ → ∃ row, σ.working.profiles.get? profile_id = some row) :
    Work.Triple P (answer profile_id) (fun r σ => P σ ∧ ∃ row, σ.working.profiles.get? profile_id = some row ∧
      r = toResponse profile_id { row with timezone := none }) E := by
  intro σ hσ
  obtain ⟨row, hrow⟩ := hP σ hσ
  unfold answer Store.getProfile
  rw [Work.read_bind, hrow]
  exact ⟨hσ, row, hrow, rfl⟩

/-- The row that a create inserts. -/
def newRow (pbkdf2 : Pbkdf2) (body : ProfileCreate) (salt : List UInt8) (created_at : String) : ProfileRow where
  name := stripped body.name
  passwordHash := newHash pbkdf2 salt body.password
  timezone := some "Asia/Tokyo"
  createdAt := created_at

theorem create_triple (pbkdf2 : Pbkdf2) (s : Store) (body : ProfileCreate) (salt : List UInt8) (created_at : String) :
    Work.Triple (fun σ => σ = .ofDb s) (create pbkdf2 body salt created_at)
      (fun r σ => (ValidName (stripped body.name) ∧ s.nameTaken (stripped body.name) = false ∧
          σ.committed = s.insertProfile (newRow pbkdf2 body salt created_at)) ∧ r.id = s.profiles.next)
      (fun _ σ => σ.committed = s) := by
  refine (validName_triple opened_error body.name).bind fun name => ?_
  refine (checkFree_triple (fun e σ hσ => opened_error e σ hσ.1) none name).bind fun _ => ?_
  refine Work.Triple.bind (Work.Triple.write (Q := fun id σ => id = s.profiles.next ∧
    ValidName (stripped body.name) ∧ s.nameTaken (stripped body.name) = false ∧
      σ.working = s.insertProfile (newRow pbkdf2 body salt created_at)) ?_) fun id => ?_
  · rintro σ ⟨⟨rfl, rfl, hblank⟩, hfree⟩
    refine ⟨rfl, validName_stripped hblank, ?_, rfl⟩
    exact hfree.resolve_left (by simp)
  · refine Work.Triple.bind (Work.Triple.commit (Q := fun _ σ => id = s.profiles.next ∧
      (ValidName (stripped body.name) ∧ s.nameTaken (stripped body.name) = false ∧
        σ.committed = s.insertProfile (newRow pbkdf2 body salt created_at)) ∧ σ.working = σ.committed) ?_) fun _ => ?_
    · rintro σ ⟨hid, hvalid, hfree, hworking⟩
      exact ⟨hid, ⟨hvalid, hfree, hworking⟩, rfl⟩
    · refine (answer_triple ?_).consequence (fun σ h => h) ?_ fun e σ h => h
      · rintro σ ⟨rfl, ⟨-, -, hcommitted⟩, hworking⟩
        exact ⟨_, by rw [hworking, hcommitted]; exact Table.get?_insert_self _ _⟩
      · rintro r σ ⟨⟨hid, hstep, -⟩, row, -, rfl⟩
        exact ⟨hstep, hid⟩

/-- A change that is not committed yet. -/
def Editing (s : Store) (profile_id : ℕ) (σ : Session Store) : Prop :=
  σ.committed = s ∧ s.Edits profile_id σ.working ∧ ∃ row, s.profiles.get? profile_id = some row

theorem editing_error (_ : ProfileSvcError) (σ : Session Store) (h : Editing s profile_id σ) : σ.committed = s := h.1

/-- The commit of a change, and its answer. -/
theorem commit_triple (s : Store) (profile_id : ℕ) :
    Work.Triple (Editing s profile_id) (do Work.commit; answer profile_id)
      (fun _ σ => s.Edits profile_id σ.committed) (fun _ σ => σ.committed = s) := by
  refine Work.Triple.bind (Work.Triple.commit (Q := fun _ σ => (s.Edits profile_id σ.committed ∧
    σ.working = σ.committed) ∧ ∃ row, s.profiles.get? profile_id = some row) ?_) fun _ => ?_
  · rintro σ ⟨-, hedits, hrow⟩
    exact ⟨⟨hedits, rfl⟩, hrow⟩
  · refine (answer_triple ?_).consequence (fun σ h => h) (fun r σ h => h.1.1.1) fun e σ h => h
    rintro σ ⟨⟨hedits, hworking⟩, row, hrow⟩
    rw [hworking]
    exact hedits.get?_isSome hrow

/-- The write of a name that is free, or that the profile has. -/
theorem edits_name {row : ProfileRow} {name : String} (hrow : s.profiles.get? profile_id = some row)
    (hblank : stripped name ≠ "") (hfree : some row.name = some (stripped name) ∨ s.nameTaken (stripped name) = false) :
    s.Edits profile_id (s.modifyProfile profile_id fun p => { p with name := stripped name }) := by
  refine ⟨_, rfl, fun p => ⟨rfl, rfl⟩, fun p hp => ?_⟩
  rcases hfree with hsame | hfree
  · have hp' : s.profiles.get? profile_id = some p := (Table.get?_eq_some_iff _).mpr hp
    obtain rfl := Option.some_inj.mp (hp'.symm.trans hrow)
    exact .inl (Option.some_inj.mp hsame).symm
  · exact .inr ⟨validName_stripped hblank, hfree⟩

theorem rename_triple (s : Store) (profile_id : ℕ) (name : String) :
    Work.Triple (fun σ => σ = .ofDb s) (rename profile_id name)
      (fun _ σ => s.Edits profile_id σ.committed) (fun _ σ => σ.committed = s) := by
  refine (validName_triple opened_error name).bind fun name' => ?_
  refine (existing_triple (fun e σ hσ => opened_error e σ hσ.1) profile_id).bind fun profile => ?_
  refine (checkFree_triple (fun e σ hσ => opened_error e σ hσ.1.1) (some profile.name) name').bind fun _ => ?_
  refine Work.Triple.bind (Work.Triple.write (Q := fun _ => Editing s profile_id) ?_) fun _ => commit_triple s profile_id
  rintro σ ⟨⟨⟨rfl, rfl, hblank⟩, row, hrow, rfl⟩, hfree⟩
  exact ⟨rfl, edits_name hrow hblank hfree, row, hrow⟩

theorem updateName_triple (s : Store) (profile_id : ℕ) {row : ProfileRow}
    (hrow : s.profiles.get? profile_id = some row) (name : Option String) :
    Work.Triple (fun σ => σ = .ofDb s) (updateName profile_id { row with timezone := none } name)
      (fun _ => Editing s profile_id) (fun _ σ => σ.committed = s) := by
  cases name with
  | none =>
    refine .pure ?_
    rintro σ rfl
    exact ⟨rfl, .refl s profile_id, row, hrow⟩
  | some name =>
    refine (validName_triple opened_error name).bind fun name' => ?_
    refine (checkFree_triple (fun e σ hσ => opened_error e σ hσ.1) (some row.name) name').bind fun _ => ?_
    refine Work.Triple.write ?_
    rintro σ ⟨⟨rfl, rfl, hblank⟩, hfree⟩
    exact ⟨rfl, edits_name hrow hblank hfree, row, hrow⟩

/-- The write of another column. -/
theorem write_triple (s : Store) (profile_id : ℕ) {g : ProfileRow → ProfileRow}
    (hg : ∀ p, (g p).passwordHash = p.passwordHash ∧ (g p).createdAt = p.createdAt ∧ (g p).name = p.name) :
    Work.Triple (Editing s profile_id)
      (Work.write fun s => ((), s.modifyProfile profile_id g) : Work Store ProfileSvcError Unit)
      (fun _ => Editing s profile_id) (fun _ σ => σ.committed = s) :=
  Work.Triple.write fun _ hσ => ⟨hσ.1, hσ.2.1.andThen hg, hσ.2.2⟩

theorem updateFiscalRule_triple (s : Store) (profile_id : ℕ) (ruleset : Option String) :
    Work.Triple (Editing s profile_id) (updateFiscalRule profile_id ruleset)
      (fun _ => Editing s profile_id) (fun _ σ => σ.committed = s) := by
  cases ruleset with
  | none => exact .pure fun σ hσ => hσ
  | some ruleset =>
    unfold updateFiscalRule
    dsimp only
    split_ifs with hvalid
    · exact write_triple s profile_id fun p => ⟨rfl, rfl, rfl⟩
    · exact .raise (editing_error (.invalidRuleset ruleset))

theorem updateTimezone_triple (z : Zones) (s : Store) (profile_id : ℕ) (timezone : Option String) :
    Work.Triple (Editing s profile_id) (updateTimezone z profile_id timezone)
      (fun _ => Editing s profile_id) (fun _ σ => σ.committed = s) := by
  cases timezone with
  | none => exact .pure fun σ hσ => hσ
  | some timezone =>
    unfold updateTimezone
    dsimp only
    split_ifs with hvalid
    · exact write_triple s profile_id fun p => ⟨rfl, rfl, rfl⟩
    · exact .raise (editing_error (.invalidTimezone timezone))

theorem update_triple (z : Zones) (s : Store) (profile_id : ℕ) (body : ProfileUpdate) :
    Work.Triple (fun σ => σ = .ofDb s) (update z profile_id body)
      (fun _ σ => s.Edits profile_id σ.committed) (fun _ σ => σ.committed = s) := by
  refine (existing_triple opened_error profile_id).bind fun profile => ?_
  refine Work.Triple.bind (Q := fun _ => Editing s profile_id) ?_ fun _ => ?_
  · rintro σ ⟨rfl, row, hrow, rfl⟩
    exact updateName_triple s profile_id hrow body.name _ rfl
  · refine (updateFiscalRule_triple s profile_id body.defaultFiscalRule).bind fun _ => ?_
    exact (updateTimezone_triple z s profile_id body.timezone).bind fun _ => commit_triple s profile_id

theorem remove_triple (s : Store) (profile_id : ℕ) :
    Work.Triple (fun σ => σ = .ofDb s) (remove profile_id)
      (fun _ σ => 1 < s.profiles.rows.length ∧ σ.committed = purge profile_id s) (fun _ σ => σ.committed = s) := by
  rintro σ rfl
  have hcall : ((delete profile_id s).1 = .ok () ∧ 1 < s.profiles.rows.length ∧
      delete profile_id s = (.ok (), purge profile_id s)) ∨ ∃ e, delete profile_id s = (.error e, s) := by
    unfold delete
    cases s.profiles.get? profile_id with
    | none => exact .inr ⟨_, rfl⟩
    | some row =>
      dsimp only
      split_ifs with hlast
      · exact .inr ⟨_, rfl⟩
      · exact .inl ⟨rfl, not_le.mp hlast, rfl⟩
  unfold remove
  rcases hcall with ⟨-, hmany, hdelete⟩ | ⟨e, hdelete⟩
  · rw [Work.bind_ok (Work.stmt_ok (a := ()) (d := purge profile_id s)
      (by simp only [Session.ofDb, Session.clean, hdelete]))]
    exact ⟨hmany, rfl⟩
  · rw [Work.bind_error (Work.stmt_error (e := .profile e) (by simp only [Session.ofDb, Session.clean, hdelete]))]
    exact rfl

theorem seed_triple (s : Store) (created_at : String) :
    Work.Triple (fun σ => σ = .ofDb s) (seedDefaultProfile created_at)
      (fun _ σ => ProfileStep s σ.committed) (fun _ σ => σ.committed = s) := by
  refine Work.Triple.bind (Work.Triple.read (Q := fun none_ σ => σ = .ofDb s ∧ none_ = s.profiles.rows.isEmpty) ?_)
    fun none_ => ?_
  · rintro σ rfl
    exact ⟨rfl, rfl⟩
  · split_ifs with hempty
    · rintro σ ⟨rfl, hnone⟩
      refine ProfileStep.added _ validName_default ?_
      unfold Store.nameTaken
      rw [List.isEmpty_iff.mp (hnone.symm.trans hempty)]
      rfl
    · refine .pure ?_
      rintro σ ⟨rfl, -⟩
      exact .same

end ProfileSvc

/-- A call changes nothing, or one profile; and one that raises changes nothing. -/
theorem ProfileCall.work_triple (z : Zones) (pbkdf2 : ProfileSvc.Pbkdf2) (call : ProfileCall) (s : Store) :
    Work.Triple (fun σ => σ = .ofDb s) (call.work z pbkdf2)
      (fun _ σ => ProfileStep s σ.committed) (fun _ σ => σ.committed = s) := by
  have hthen : ∀ {α β : Type} {w : Work Store ProfileSvcError α} {f : α → β},
      Work.Triple (fun σ => σ = .ofDb s) w (fun _ σ => ProfileStep s σ.committed) (fun _ σ => σ.committed = s) →
      Work.Triple (fun σ => σ = .ofDb s) (do let a ← w; pure (f a)) (fun _ σ => ProfileStep s σ.committed)
        (fun _ σ => σ.committed = s) := fun h => h.bind fun _ => .pure fun _ hσ => hσ
  have hread : ∀ {σ : Session Store}, σ = .ofDb s → ProfileStep s σ.committed := by
    rintro σ rfl
    exact .same
  cases call with
  | seed created_at => exact hthen (ProfileSvc.seed_triple s created_at)
  | get profile_id =>
    refine hthen ((ProfileSvc.existing_triple ProfileSvc.opened_error profile_id).bind fun profile => .pure fun σ hσ => hread hσ.1)
  | create body salt created_at =>
    refine hthen ((ProfileSvc.create_triple pbkdf2 s body salt created_at).consequence (fun σ h => h) ?_ fun e σ h => h)
    rintro r σ ⟨⟨hvalid, hfree, hcommitted⟩, -⟩
    rw [hcommitted]
    exact .added _ hvalid hfree
  | rename profile_id name =>
    exact hthen ((ProfileSvc.rename_triple s profile_id name).consequence (fun σ h => h)
      (fun r σ h => .changed profile_id _ h) fun e σ h => h)
  | update profile_id body =>
    exact hthen ((ProfileSvc.update_triple z s profile_id body).consequence (fun σ h => h)
      (fun r σ h => .changed profile_id _ h) fun e σ h => h)
  | unlock profile_id password =>
    refine hthen ((ProfileSvc.existing_triple ProfileSvc.opened_error profile_id).bind fun profile => ?_)
    split_ifs with hopens
    · exact .pure fun σ hσ => hread hσ.1
    · exact .raise fun σ hσ => ProfileSvc.opened_error .invalidPassword σ hσ.1
  | delete profile_id =>
    refine hthen ((ProfileSvc.remove_triple s profile_id).consequence (fun σ h => h) ?_ fun e σ h => h)
    rintro r σ ⟨hmany, hcommitted⟩
    rw [hcommitted]
    exact .deleted profile_id hmany

/-! ## Sequences of calls -/

/-- The profiles that a database should have. -/
structure ProfilesOk (t : Table ProfileRow) : Prop where
  distinct : ∀ r ∈ t.rows, ∀ r' ∈ t.rows, r.2.name = r'.2.name → r.1 = r'.1
  valid : ∀ r ∈ t.rows, ValidName r.2.name
  present : t.rows ≠ []

namespace ProfilesOk

variable {t : Table ProfileRow}

theorem insert (h : ProfilesOk t) {row : ProfileRow} (hvalid : ValidName row.name)
    (hfree : ∀ r ∈ t.rows, r.2.name ≠ row.name) : ProfilesOk (t.insert row) where
  distinct r hr r' hr' hname := by
    rcases Table.mem_insert.mp hr with hr | rfl <;> rcases Table.mem_insert.mp hr' with hr' | rfl
    · exact h.distinct r hr r' hr' hname
    · exact absurd hname (hfree r hr)
    · exact absurd hname.symm (hfree r' hr')
    · rfl
  valid r hr := by
    rcases Table.mem_insert.mp hr with hr | rfl
    · exact h.valid r hr
    · exact hvalid
  present := List.ne_nil_of_mem (Table.mem_insert.mpr (.inr rfl))

theorem modify (h : ProfilesOk t) {k : ℕ} {f : ProfileRow → ProfileRow}
    (hname : ∀ p, (k, p) ∈ t.rows →
      (f p).name = p.name ∨ ValidName (f p).name ∧ ∀ r ∈ t.rows, r.2.name ≠ (f p).name) :
    ProfilesOk (t.modify k f) where
  distinct := by
    have hother : ∀ r ∈ t.rows, r.1 ≠ k → ∀ p, (k, p) ∈ t.rows → r.2.name ≠ (f p).name := by
      intro r hr hne p hp heq
      rcases hname p hp with hsame | ⟨-, hfree⟩
      · exact hne (h.distinct r hr _ hp (heq.trans hsame))
      · exact hfree r hr heq
    rintro ⟨j, a⟩ hr ⟨j', a'⟩ hr' heq
    rcases Table.mem_modify.mp hr with ⟨hne, hr⟩ | ⟨hid, p, hp, rfl⟩ <;>
      rcases Table.mem_modify.mp hr' with ⟨hne', hr'⟩ | ⟨hid', p', hp', rfl⟩
    · exact h.distinct _ hr _ hr' heq
    · exact absurd heq (hother _ hr hne p' hp')
    · exact absurd heq.symm (hother _ hr' hne' p hp)
    · exact hid.trans hid'.symm
  valid := by
    rintro ⟨j, a⟩ hr
    rcases Table.mem_modify.mp hr with ⟨-, hr⟩ | ⟨-, p, hp, rfl⟩
    · exact h.valid _ hr
    · change ValidName (f p).name
      rcases hname p hp with hsame | ⟨hvalid, -⟩
      · rw [hsame]
        exact h.valid (k, p) hp
      · exact hvalid
  present hnil := h.present (List.map_eq_nil_iff.mp hnil)

/-- Of two profiles one has another key. -/
theorem erase (h : ProfilesOk t) {k : ℕ} (hmany : 1 < t.rows.length) : ProfilesOk (t.erase k) where
  distinct r hr r' hr' := h.distinct r (Table.mem_erase.mp hr).1 r' (Table.mem_erase.mp hr').1
  valid r hr := h.valid r (Table.mem_erase.mp hr).1
  present := by
    obtain ⟨r, hr, hne⟩ : ∃ r ∈ t.rows, r.1 ≠ k := by
      by_contra hall
      push Not at hall
      have hsame : t.rows.map Prod.fst = List.replicate (t.rows.map Prod.fst).length k := by
        refine List.eq_replicate_of_mem fun j hj => ?_
        obtain ⟨r, hr, rfl⟩ := List.mem_map.mp hj
        exact hall r hr
      have hkeys := t.nodup_keys
      rw [hsame, List.length_map, List.nodup_replicate] at hkeys
      omega
    exact List.ne_nil_of_mem (Table.mem_erase.mpr ⟨hr, hne⟩)

end ProfilesOk

/-- What later calls keep of the profiles: a profile that is still there has its password and its date, and one that
is gone is gone for good. -/
structure Store.KeepsProfiles (s s' : Store) : Prop where
  next : s.profiles.next ≤ s'.profiles.next
  kept : ∀ id < s.profiles.next, ∀ row', s'.profiles.get? id = some row' → ∃ row, s.profiles.get? id = some row ∧
    row'.passwordHash = row.passwordHash ∧ row'.createdAt = row.createdAt

section

variable {s s' s'' : Store}

theorem Store.KeepsProfiles.refl (s : Store) : s.KeepsProfiles s where
  next := le_rfl
  kept _ _ row' h := ⟨row', h, rfl, rfl⟩

theorem Store.KeepsProfiles.trans (h : s.KeepsProfiles s') (h' : s'.KeepsProfiles s'') : s.KeepsProfiles s'' where
  next := h.next.trans h'.next
  kept id hid row'' hrow'' := by
    obtain ⟨row', hrow', hash', created'⟩ := h'.kept id (hid.trans_le h.next) row'' hrow''
    obtain ⟨row, hrow, hash, created⟩ := h.kept id hid row' hrow'
    exact ⟨row, hrow, hash'.trans hash, created'.trans created⟩

theorem ProfileStep.keeps (h : ProfileStep s s') : s.KeepsProfiles s' := by
  cases h with
  | same => exact .refl s
  | added row valid free =>
    refine ⟨Nat.le_succ _, fun id hid row' hrow' => ?_⟩
    rw [Table.get?_eq_some_iff] at hrow'
    rcases Table.mem_insert.mp hrow' with hold | hnew
    · exact ⟨row', (Table.get?_eq_some_iff _).mpr hold, rfl, rfl⟩
    · exact absurd (congrArg Prod.fst hnew) hid.ne
  | changed profile_id _ edits =>
    obtain ⟨f, rfl, hkeeps, -⟩ := edits
    refine ⟨le_rfl, fun id hid row' hrow' => ?_⟩
    rw [Table.get?_eq_some_iff] at hrow'
    rcases Table.mem_modify.mp hrow' with ⟨-, hold⟩ | ⟨rfl, row, hold, rfl⟩
    · exact ⟨row', (Table.get?_eq_some_iff _).mpr hold, rfl, rfl⟩
    · exact ⟨row, (Table.get?_eq_some_iff _).mpr hold, hkeeps row⟩
  | deleted profile_id many =>
    rw [purge_eq]
    refine ⟨le_rfl, fun id hid row' hrow' => ⟨row', ?_, rfl, rfl⟩⟩
    rw [Table.get?_eq_some_iff] at hrow' ⊢
    exact (Table.mem_erase.mp hrow').1

theorem Store.free_of_nameTaken {name : String} (h : s.nameTaken name = false) :
    ∀ r ∈ s.profiles.rows, r.2.name ≠ name := by
  intro r hr heq
  rw [Store.nameTaken_iff.mpr ⟨r, hr, heq⟩] at h
  cases h

theorem ProfileStep.profilesOk (h : ProfileStep s s') (hs : ProfilesOk s.profiles) : ProfilesOk s'.profiles := by
  cases h with
  | same => exact hs
  | added row valid free => exact hs.insert valid (Store.free_of_nameTaken free)
  | changed profile_id _ edits =>
    obtain ⟨f, rfl, -, hname⟩ := edits
    exact hs.modify fun p hp => (hname p hp).imp_right fun h => ⟨h.1, Store.free_of_nameTaken h.2⟩
  | deleted profile_id many =>
    rw [purge_eq]
    exact hs.erase many

end

section

variable {z : Zones} {pbkdf2 : ProfileSvc.Pbkdf2} {s : Store}

theorem ProfileCall.step (call : ProfileCall) (s : Store) : ProfileStep s ((call.work z pbkdf2).saved s) :=
  ((call.work_triple z pbkdf2 s).consequence (fun _ h => h) (fun _ _ h => h) fun _ σ hσ => by
    rw [hσ]
    exact .same).saved

theorem ProfileCall.saved_of_raised {call : ProfileCall} {e : ProfileSvcError}
    (h : (call.work z pbkdf2).raised s = some e) : (call.work z pbkdf2).saved s = s := by
  have hcall := call.work_triple z pbkdf2 s (.ofDb s) rfl
  unfold Work.raised at h
  unfold Work.saved
  cases hrun : call.work z pbkdf2 (.ofDb s) with
  | mk answer σ =>
    rw [hrun] at h hcall
    cases answer with
    | ok a => cases h
    | error e' => exact hcall

theorem profileRuns_concat (s : Store) (calls : List ProfileCall) (call : ProfileCall) :
    profileRuns z pbkdf2 s (calls ++ [call]) = (call.work z pbkdf2).saved (profileRuns z pbkdf2 s calls) :=
  List.foldl_append

theorem any_triple {α : Type} (w : Work Store ProfileSvcError α) :
    Work.Triple (fun _ => True) w (fun _ _ => True) fun _ _ => True := by
  intro σ _
  rcases w σ with ⟨_ | _, σ'⟩ <;> trivial

/-- Every answer names Tokyo: the query of a profile leaves its timezone out. -/
theorem ProfileCall.timezone_triple (z : Zones) (pbkdf2 : ProfileSvc.Pbkdf2) (call : ProfileCall) :
    Work.Triple (fun _ => True) (call.work z pbkdf2)
      (fun r _ => ∀ response ∈ r, response.timezone = "Asia/Tokyo") fun _ _ => True := by
  have hresponse : ∀ {w : Work Store ProfileSvcError ProfileResponse},
      Work.Triple (fun _ => True) w (fun r _ => r.timezone = "Asia/Tokyo") (fun _ _ => True) →
      Work.Triple (fun _ => True) (do let response ← w; pure (some response) : Work Store ProfileSvcError _)
        (fun r _ => ∀ response ∈ r, response.timezone = "Asia/Tokyo") (fun _ _ => True) := by
    refine fun h => h.bind fun r => .pure fun σ hr response hmem => ?_
    rw [← Option.some_inj.mp hmem]
    exact hr
  have hanswer : ∀ profile_id, Work.Triple (fun _ => True) (ProfileSvc.answer profile_id)
      (fun r _ => r.timezone = "Asia/Tokyo") (fun _ _ => True) := by
    intro profile_id σ _
    unfold ProfileSvc.answer Store.getProfile
    rw [Work.read_bind]
    cases σ.working.profiles.get? profile_id with
    | none => trivial
    | some row => rfl
  have hexisting : ∀ profile_id, Work.Triple (fun _ => True) (ProfileSvc.existing profile_id)
      (fun p _ => p.timezone = none) (fun _ _ => True) := fun profile_id =>
    (ProfileSvc.existing_triple (fun _ _ _ => trivial) profile_id).consequence (fun _ h => h)
      (fun p σ h => by
        obtain ⟨-, row, -, rfl⟩ := h
        rfl) fun _ _ _ => trivial
  have htokyo : ∀ profile_id (p : ProfileRow), p.timezone = none →
      (ProfileSvc.toResponse profile_id p).timezone = "Asia/Tokyo" := by
    intro profile_id p hp
    unfold ProfileSvc.toResponse
    rw [hp]
    rfl
  cases call with
  | seed created_at =>
    exact (any_triple _).bind fun _ => .pure fun _ _ _ h => nomatch h
  | get profile_id =>
    exact hresponse ((hexisting profile_id).bind fun p => .pure fun σ hp => htokyo profile_id p hp)
  | create body salt created_at =>
    refine hresponse ((any_triple _).bind fun _ => (any_triple _).bind fun _ => ?_)
    exact (any_triple _).bind fun id => (any_triple _).bind fun _ => hanswer id
  | rename profile_id name =>
    refine hresponse ((any_triple _).bind fun _ => (any_triple _).bind fun _ => ?_)
    exact (any_triple _).bind fun _ => (any_triple _).bind fun _ => (any_triple _).bind fun _ => hanswer profile_id
  | update profile_id body =>
    refine hresponse ((any_triple _).bind fun _ => (any_triple _).bind fun _ => ?_)
    exact (any_triple _).bind fun _ => (any_triple _).bind fun _ => (any_triple _).bind fun _ => hanswer profile_id
  | unlock profile_id password =>
    refine hresponse ((hexisting profile_id).bind fun p => ?_)
    split_ifs with hopens
    · exact .pure fun σ hp => htokyo profile_id p hp
    · exact .raise fun _ _ => trivial
  | delete profile_id =>
    exact (any_triple _).bind fun _ => .pure fun _ _ _ h => nomatch h

/-- The profiles after a sequence of calls. -/
structure ProfileLaws (z : Zones) (pbkdf2 : ProfileSvc.Pbkdf2) (s : Store) (calls : List ProfileCall) : Prop where
  ok : ProfilesOk s.profiles → ProfilesOk (profileRuns z pbkdf2 s calls).profiles
  keeps : s.KeepsProfiles (profileRuns z pbkdf2 s calls)
  refused : ∀ (call : ProfileCall) (e : ProfileSvcError),
    (call.work z pbkdf2).raised (profileRuns z pbkdf2 s calls) = some e →
    profileRuns z pbkdf2 s (calls ++ [call]) = profileRuns z pbkdf2 s calls
  timezone : ∀ (call : ProfileCall) (response : ProfileResponse),
    (call.work z pbkdf2 (.ofDb (profileRuns z pbkdf2 s calls))).1 = .ok (some response) →
    response.timezone = "Asia/Tokyo"

/-- No sequence of calls leaves two profiles of one name, a blank name or no profile, or changes a password. -/
theorem profileRuns_laws (z : Zones) (pbkdf2 : ProfileSvc.Pbkdf2) (s : Store) (calls : List ProfileCall) :
    ProfileLaws z pbkdf2 s calls := by
  have hruns : (ProfilesOk s.profiles → ProfilesOk (profileRuns z pbkdf2 s calls).profiles) ∧
      s.KeepsProfiles (profileRuns z pbkdf2 s calls) := by
    induction calls using List.reverseRecOn with
    | nil => exact ⟨id, .refl s⟩
    | append_singleton calls call ih =>
      rw [profileRuns_concat]
      have hstep : ProfileStep (profileRuns z pbkdf2 s calls)
          ((call.work z pbkdf2).saved (profileRuns z pbkdf2 s calls)) := call.step _
      exact ⟨fun h => hstep.profilesOk (ih.1 h), ih.2.trans hstep.keeps⟩
  refine ⟨hruns.1, hruns.2, fun call e h => ?_, fun call response h => ?_⟩
  · rw [profileRuns_concat]
    exact ProfileCall.saved_of_raised h
  · have hcall := call.timezone_triple z pbkdf2 (.ofDb (profileRuns z pbkdf2 s calls)) trivial
    revert hcall
    cases hrun : call.work z pbkdf2 (.ofDb (profileRuns z pbkdf2 s calls)) with
    | mk r σ =>
      rw [hrun] at h
      obtain rfl : r = .ok (some response) := h
      exact fun hcall => hcall response rfl

/-! ## Passwords -/

namespace ProfileSvc

/-- What opens a profile that was created with a password: nothing is needed for none, and else a password that is not
empty and has the same key under the salt. -/
def Admits (pbkdf2 : Pbkdf2) (password : Option String) (salt : List UInt8) (given : Option String) : Prop :=
  ∀ p ∈ password, p ≠ "" → ∃ w ∈ given, w ≠ "" ∧ pbkdf2 w salt pbkdf2Iterations = pbkdf2 p salt pbkdf2Iterations

theorem opens_iff {password : Option String} {salt : List UInt8} {row : ProfileRow}
    (hrow : row.passwordHash = newHash pbkdf2 salt password) (given : Option String) :
    opens pbkdf2 row given = true ↔ Admits pbkdf2 password salt given := by
  unfold opens Admits
  rw [hrow]
  cases password with
  | none => simp [newHash]
  | some p =>
    by_cases hempty : p = ""
    · simp [newHash, hempty]
    · have hhash : newHash pbkdf2 salt (some p) = some (hashPassword pbkdf2 p salt) := by
        unfold newHash
        rw [Option.filter_some, if_pos (decide_eq_true hempty), Option.map_some]
      have hverify := fun w => verifyPassword_hashPassword pbkdf2 p w salt
      rw [hhash]
      cases given with
      | none => simp [hempty]
      | some w => simp [hverify, hempty]

theorem unlock_raised (s : Store) (profile_id : ℕ) (given : Option String) :
    (unlock pbkdf2 profile_id given).raised s =
      match s.profiles.get? profile_id with
      | none => some (.profile (.profileNotFound profile_id))
      | some row => if opens pbkdf2 row given then none else some .invalidPassword := by
  unfold Work.raised unlock
  cases hrow : s.profiles.get? profile_id with
  | none =>
    have hmissing : existing profile_id (.ofDb s) = (.error (.profile (.profileNotFound profile_id)), .ofDb s) := by
      unfold existing Store.getProfile
      rw [Work.read_bind]
      simp only [Session.ofDb, Session.clean, hrow]
      rfl
    rw [Work.bind_error hmissing]
  | some row =>
    have hfound : existing profile_id (.ofDb s) = (.ok { row with timezone := none }, .ofDb s) := by
      unfold existing Store.getProfile
      rw [Work.read_bind]
      simp only [Session.ofDb, Session.clean, hrow]
      rfl
    have hopens : opens pbkdf2 { row with timezone := none } given = opens pbkdf2 row given := rfl
    rw [Work.bind_ok hfound, hopens]
    dsimp only
    split_ifs <;> rfl

/-- The passwords of a profile, and the requests that are let through for it. -/
structure UnlockLaws (pbkdf2 : Pbkdf2) (password : Option String) (salt : List UInt8) (s : Store) (profile_id : ℕ) :
    Prop where
  gone : s.profiles.get? profile_id = none → ∀ given,
    (unlock pbkdf2 profile_id given).raised s = some (.profile (.profileNotFound profile_id))
  admits : (s.profiles.get? profile_id).isSome → ∀ given, Admits pbkdf2 password salt given →
    (unlock pbkdf2 profile_id given).raised s = none
  refuses : (s.profiles.get? profile_id).isSome → ∀ given, ¬ Admits pbkdf2 password salt given →
    (unlock pbkdf2 profile_id given).raised s = some .invalidPassword
  /-- The header of a request is not asked for a password. -/
  header : requireProfile s (some profile_id) = some profile_id ↔ (s.profiles.get? profile_id).isSome

/-- However long after its creation, a profile opens for the passwords with the key of the one it was created with, and
for no others; and its rows are served to every request that names it. -/
theorem unlock_after {body : ProfileCreate} {salt : List UInt8} {created_at : String} {response : ProfileResponse}
    (hcreate : (create pbkdf2 body salt created_at (.ofDb s)).1 = .ok response) (calls : List ProfileCall) :
    UnlockLaws pbkdf2 body.password salt
      (profileRuns z pbkdf2 ((create pbkdf2 body salt created_at).saved s) calls) response.id := by
  set s' := profileRuns z pbkdf2 ((create pbkdf2 body salt created_at).saved s) calls with hs'
  have hhash : ∀ row, s'.profiles.get? response.id = some row →
      row.passwordHash = newHash pbkdf2 salt body.password := by
    have hcall := create_triple pbkdf2 s body salt created_at (.ofDb s) rfl
    cases hrun : create pbkdf2 body salt created_at (.ofDb s) with
    | mk r σ =>
      rw [hrun] at hcreate hcall
      obtain rfl : r = .ok response := hcreate
      obtain ⟨⟨-, -, hcommitted⟩, hid⟩ := hcall
      have hsaved : (create pbkdf2 body salt created_at).saved s =
          s.insertProfile (newRow pbkdf2 body salt created_at) := by
        unfold Work.saved
        rw [hrun]
        exact hcommitted
      intro row hrow
      have hkeeps := (profileRuns_laws z pbkdf2 ((create pbkdf2 body salt created_at).saved s) calls).keeps
      rw [← hs', hsaved] at hkeeps
      obtain ⟨row', hrow', hsame, -⟩ := hkeeps.kept response.id (by rw [hid]; exact Nat.lt_succ_self _) row hrow
      rw [hid] at hrow'
      obtain rfl := Option.some_inj.mp (hrow'.symm.trans (Table.get?_insert_self _ _))
      exact hsame
  refine ⟨fun hgone given => ?_, fun hthere given hadmits => ?_, fun hthere given hadmits => ?_, ?_⟩
  · rw [unlock_raised, hgone]
  · obtain ⟨row, hrow⟩ := Option.isSome_iff_exists.mp hthere
    rw [unlock_raised, hrow]
    exact if_pos ((opens_iff (hhash row hrow) given).mpr hadmits)
  · obtain ⟨row, hrow⟩ := Option.isSome_iff_exists.mp hthere
    rw [unlock_raised, hrow]
    exact if_neg fun hopens => hadmits ((opens_iff (hhash row hrow) given).mp hopens)
  · unfold requireProfile Store.getProfile
    rw [Option.filter_some, Option.isSome_map]
    cases (s'.profiles.get? response.id).isSome <;> simp

end ProfileSvc

end

namespace Sample

/-- A salt, and a key derivation that knows one key under it. -/
def salt16 : List UInt8 := (List.range 16).map UInt8.ofNat

def secretKey : List UInt8 :=
  [64, 89, 95, 82, 222, 83, 57, 98, 254, 103, 223, 201, 22, 112, 32, 23, 186, 162, 57, 8, 225, 226,
    110, 161, 34, 118, 110, 146, 21, 188, 212, 3]

def knownKey : ProfileSvc.Pbkdf2 := fun password salt iterations =>
  if password = "secret" ∧ salt = salt16 ∧ iterations = 600000 then secretKey else []

def newProfile : ProfileCreate where
  name := " Home "
  password := some "secret"

/-- A profile is renamed after another has been created and deleted; its password stays. -/
theorem unlock_home : ∃ response : ProfileResponse, response.name = "Home" ∧
    ProfileSvc.UnlockLaws knownKey (some "secret") salt16
      (profileRuns zones knownKey ((ProfileSvc.create knownKey newProfile salt16 "").saved Store.empty)
        [.create { name := "Work" } [] "", .update response.id { name := some "Flat" }, .delete 1]) response.id := by
  obtain ⟨response, hcreate⟩ := Runs.exists_of_isSome_toOption
    (x := (ProfileSvc.create knownKey newProfile salt16 "" (.ofDb Store.empty)).1) (by decide +kernel)
  have hname : ((ProfileSvc.create knownKey newProfile salt16 "" (.ofDb Store.empty)).1.toOption.map
      ProfileResponse.name) = some "Home" := by decide +kernel
  rw [hcreate] at hname
  exact ⟨response, Option.some_inj.mp hname, ProfileSvc.unlock_after hcreate _⟩

end Sample

end FinHub
