import Kaleidoscope.Account.Sequential

/-!
# The refresh chain

The credentials stored since the store was last empty, newest first.  In a run of one client
the last of them is a login's and each of the others rotates the one before it.  Of the
identity only the subject is not compared by `validate_session`: it stays that of the login
as long as every accepted rotation carries the subject of the credential it continues.

    chain_good         every run keeps the chain good, with `KeepsSubject` at the readings
    stored_eq_login    the stored credential against the one the login stored
-/

namespace Kaleidoscope.Account

/-- A credential that was stored, and the operation that stored it. -/
structure Stored where
  operation : Option Operation
  credential : StoredCredential

def Stored.byLogin (entry : Stored) : Bool := entry.operation.any Operation.isLogin

/-- The credentials stored since the last delete, newest first. -/
def chain {Pid : Type} : List (Entry Pid) → List Stored
  | [] => []
  | .did _ operation (.save credential) (.ok _) :: rest => ⟨operation, credential⟩ :: chain rest
  | .did _ _ .delete (.ok _) :: _ => []
  | _ :: rest => chain rest

/-- An accepted rotation carries the subject of the credential it continues. -/
def KeepsSubject (crates : External) (config : AccountClientConfig) (x : Exchange) (now : Nat) :
    Prop :=
  ∀ stored session, x.expected = some stored → x.verdict crates config now = .ok session →
    session.credential.subject = stored.subject

/-- A login's credential, then rotations by other operations that keep the subject. -/
def GoodChain (config : AccountClientConfig) : List Stored → Prop
  | [] => True
  | [first] => first.byLogin = true ∧ first.credential.refreshGeneration = 0
      ∧ first.credential.issuer = config.issuer ∧ first.credential.audience = config.audience
  | later :: earlier :: rest => later.byLogin = false
      ∧ Rotates earlier.credential later.credential
      ∧ later.credential.subject = earlier.credential.subject
      ∧ GoodChain config (earlier :: rest)

/-- The same account, subject, device, token family, issuer and audience. -/
structure SameIdentity (c d : StoredCredential) : Prop where
  accountId : c.accountId = d.accountId
  subject : c.subject = d.subject
  deviceId : c.deviceId = d.deviceId
  tokenFamilyId : c.tokenFamilyId = d.tokenFamilyId
  issuer : c.issuer = d.issuer
  audience : c.audience = d.audience

/-- The credential stands at the end of a chain that a login began: it has the login's identity,
its generation counts the rotations, and its token is not the one it replaced. -/
def ContinuesLogin (entries : List Stored) (c : StoredCredential) : Prop :=
  ∃ login rotations, entries = rotations ++ [login] ∧ login.byLogin = true
    ∧ (∀ r ∈ rotations, r.byLogin = false)
    ∧ SameIdentity c login.credential
    ∧ c.refreshGeneration = rotations.length
    ∧ ∀ replaced ∈ entries.tail.head?, c.refreshToken ≠ replaced.credential.refreshToken

/-! ## Lemmas -/

variable {crates : External} {config : AccountClientConfig}

theorem sameIdentity_of_rotates {c d e : StoredCredential} (h : Rotates d c)
    (hsub : c.subject = d.subject) (h' : SameIdentity d e) : SameIdentity c e :=
  ⟨h.accountId.trans h'.accountId, hsub.trans h'.subject, h.deviceId.trans h'.deviceId,
    h.tokenFamilyId.trans h'.tokenFamilyId, h.issuer.trans h'.issuer,
    h.audience.trans h'.audience⟩

/-- A good chain read off its newest credential: rotations over a login. -/
theorem goodChain_split {entries : List Stored} {newest : Stored}
    (h : GoodChain config (newest :: entries)) :
    ContinuesLogin (newest :: entries) newest.credential := by
  induction entries generalizing newest with
  | nil =>
    obtain ⟨hlogin, hgen, hiss, haud⟩ := h
    exact ⟨newest, [], rfl, hlogin, by simp, ⟨rfl, rfl, rfl, rfl, rfl, rfl⟩, hgen, by simp⟩
  | cons earlier rest ih =>
    obtain ⟨hlogin, hrot, hsub, hrest⟩ := h
    obtain ⟨login, rotations, heq, hby, hall, hsame, hgen, _⟩ := ih hrest
    refine ⟨login, newest :: rotations, ?_, hby, ?_, ?_, ?_, ?_⟩
    · simp [heq]
    · intro r hr
      rcases List.mem_cons.mp hr with rfl | hr
      · exact hlogin
      · exact hall r hr
    · exact sameIdentity_of_rotates hrot hsub hsame
    · simp [hrot.refreshGeneration, hgen]
    · intro replaced hmem
      simp only [List.tail_cons, List.head?_cons, Option.mem_some_iff] at hmem
      subst hmem
      exact hrot.refreshToken

/-! ## The run -/

/-- The coupling of the run: the chain is good and its newest credential is in the slot. -/
structure ChainKept (crates : External) (config : AccountClientConfig) (s : State Unit)
    (v : Pool.Locals Unit Operation View) : Prop
    extends Sequential (KeepsSubject crates config) s v where
  good : GoodChain config (chain s.history)
  slot : s.slot = (chain s.history).head?.map Stored.credential

theorem goodChain_save {entries : List Stored} {slot : Option StoredCredential}
    (operation : Operation) {x : Exchange} {now : Nat} {session : ActiveSession}
    (hgood : GoodChain config entries)
    (hslot : slot = entries.head?.map Stored.credential) (hexp : slot = x.expected)
    (hlogin : operation.isLogin = x.expected.isNone)
    (hv : x.verdict crates config now = .ok session)
    (hsub : KeepsSubject crates config x now) :
    GoodChain config (⟨some operation, session.credential⟩ :: entries) := by
  obtain ⟨wire, _, haccepted⟩ := sessionVerdict_ok hv
  cases entries with
  | nil =>
    have hnone : x.expected = none := by rw [← hexp, hslot]; rfl
    rw [hnone] at haccepted hlogin
    exact ⟨hlogin, haccepted.first, haccepted.issuer, haccepted.audience⟩
  | cons earlier rest =>
    have hsome : x.expected = some earlier.credential := by rw [← hexp, hslot]; rfl
    have hs := hsub earlier.credential session hsome hv
    rw [hsome] at haccepted hlogin
    exact ⟨hlogin, haccepted.rotates, hs, hgood⟩

theorem chainKept_event {s : State Unit} {v : Pool.Locals Unit Operation View} {p : Unit}
    {o : Operation} {l : View} {e : Event} {answer : e.Answer}
    (h : ChainKept crates config s v) (hp : v p = some (o, l)) (hmay : l.May crates config e)
    (hans : Answers s e answer) (hread : AtReading (KeepsSubject crates config) s p e answer) :
    ChainKept crates config (s.after crates config p e answer)
      (Function.update v p (some (o, l.after crates config e answer))) := by
  refine ⟨sequential_event h.toSequential hp hans hread, ?_, ?_⟩
  · cases e with
    | save credential =>
      cases answer with
      | error x => exact h.good
      | ok u =>
        obtain ⟨x, now, session, hx, hclock, hv, rfl, hseen, hlogin, _⟩ := hmay
        obtain ⟨hop, _, hl⟩ := h.kept p o l hp
        have hgood := goodChain_save o h.good h.slot
          (h.seen o l x.expected hp hseen) (hl.symm.trans hlogin) hv
          (h.reading o l x now hp hx hclock)
        simpa [State.after, chain, hop] using hgood
    | delete =>
      cases answer with
      | error x => exact h.good
      | ok removed => trivial
    | _ => exact h.good
  · cases e with
    | save credential =>
      cases answer with
      | error x => exact h.slot
      | ok u => rfl
    | delete =>
      cases answer with
      | error x => exact h.slot
      | ok removed => rfl
    | _ => exact h.slot

/-- The operations of one client, one after the other, in an environment where every accepted
rotation carries the stored subject. -/
def subjectWorld (crates : External) (config : AccountClientConfig) :
    Pool.World Event Event.Answer AccountError Unit (State Unit) Unit Operation :=
  (accountWorld crates config fun _ _ => True).restrict
    fun s p e answer _ => AtReading (KeepsSubject crates config) s p e answer

theorem chain_good {client : AccountClient} {s : State Unit}
    {r : Pool.Running Event Event.Answer AccountError Unit Unit Operation}
    (run : Pool.Reachable (subjectWorld crates client.config) (Operation.program crates client)
      (State.initial none) s r) :
    ∃ v, ChainKept crates client.config s v := by
  have hJ : Pool.Invariant (subjectWorld crates client.config)
      (storeDiscipline crates client.config) (fun _ _ v => v.Settled crates client.config)
      Operation.view (State.initial none) (ChainKept crates client.config) :=
    { init := ⟨sequential_init, trivial, rfl⟩
      start := by
        rintro s v p o s' h _ ⟨_, rfl⟩
        exact ⟨sequential_start h.toSequential p o, h.good, h.slot⟩
      event := by
        rintro s v p o l e answer s' h hp hmay ⟨⟨hans, rfl⟩, hread⟩
        exact chainKept_event h hp hmay hans hread
      finish := by
        rintro s v p o l result s' h _ _ rfl
        exact ⟨sequential_finish h.toSequential, h.good, h.slot⟩ }
  obtain ⟨v, hv, _⟩ := Pool.reachable_invariant (operation_follows client) hJ run
  exact ⟨v, hv⟩

/-! ## Two scripted runs -/

/-- A device login, then a status that refreshes. -/
def loginThenStatus : List (Pool.Turn Unit Operation) :=
  .start () (.loginDevice sampleDisplay 1) :: List.replicate 23 (.event ())
    ++ [.finish (), .start () .status] ++ List.replicate 14 (.event ())

/-- The clock is read after an answered exchange only where the subject is kept. -/
def keepsSubject (s : State Unit) (p : Unit) : Event → Bool
  | .nowUnix =>
    match (s.views p).exchange, (s.views p).clock with
    | some x, none =>
      match x.expected, x.verdict sampleCrates sampleConfig 1000 with
      | some stored, .ok session => session.credential.subject == stored.subject
      | _, _ => true
    | _, _ => true
  | _ => true

theorem atReading_of_keepsSubject {rotation : WireResponse} {s : State Unit} {p : Unit}
    {e : Event} (h : keepsSubject s p e = true) :
    AtReading (KeepsSubject sampleCrates sampleConfig) s p e (sampleAnswer rotation s e) := by
  cases e with
  | nowUnix =>
    intro x hx hclock stored session hexp hv
    simpa [keepsSubject, hx, hclock, hexp, show x.verdict sampleCrates sampleConfig 1000
      = .ok session from hv] using h
  | _ => trivial

def runLoginThenStatus (rotation : SessionWire) (allowed : State Unit → Unit → Event → Bool) :
    Option (State Unit × Pool.Running Event Event.Answer AccountError Unit Unit Operation) :=
  Pool.drive (sampleScript sampleCrates sampleConfig ⟨200, sampleBody rotation⟩
      (fun _ _ => true) allowed)
    (Operation.program sampleCrates sampleClient) loginThenStatus
    (State.initial none, fun _ => none)

theorem runLoginThenStatus_reachable {rotation : SessionWire}
    {allowed : State Unit → Unit → Event → Bool}
    (ok : State Unit → Unit → (e : Event) → e.Answer → State Unit → Prop)
    (hok : ∀ s p e s', allowed s p e = true →
      ok s p e (sampleAnswer ⟨200, sampleBody rotation⟩ s e) s')
    {c : State Unit × Pool.Running Event Event.Answer AccountError Unit Unit Operation}
    (h : runLoginThenStatus rotation allowed = some c) :
    Pool.Reachable ((accountWorld sampleCrates sampleConfig fun _ _ => True).restrict ok)
      (Operation.program sampleCrates sampleClient) (State.initial none) c.1 c.2 :=
  Pool.drive_reachable (sampleScript_sound (fun _ _ _ => trivial) hok) loginThenStatus .init h

/-- The stored credential has another subject than the one the login stored. -/
def subjectChanged (s : State Unit) : Bool :=
  match s.slot, (chain s.history).getLast? with
  | some c, some login => c.subject != login.credential.subject
  | _, _ => false

theorem subjectChanged_not_continues {s : State Unit} (h : subjectChanged s = true) :
    ∃ c, s.slot = some c ∧ ¬ContinuesLogin (chain s.history) c := by
  unfold subjectChanged at h
  split at h
  next c login hslot hlast =>
    refine ⟨c, hslot, ?_⟩
    rintro ⟨login', rotations, heq, _, _, hsame, _⟩
    rw [heq] at hlast
    simp only [List.getLast?_append, List.getLast?_singleton, Option.some_or,
      Option.some.injEq] at hlast
    subst hlast
    simp [hsame.subject] at h
  next => cases h

/-! ## Top theorems -/

/-- In every state of such a run the stored credential continues the one its login stored. -/
theorem stored_eq_login (client : AccountClient) {s : State Unit}
    {r : Pool.Running Event Event.Answer AccountError Unit Unit Operation}
    (run : Pool.Reachable (subjectWorld crates client.config) (Operation.program crates client)
      (State.initial none) s r) (c : StoredCredential) (hc : s.slot = some c) :
    ContinuesLogin (chain s.history) c := by
  obtain ⟨v, hv⟩ := chain_good run
  have hgood := hv.good
  have hslot := hv.slot
  rw [hc] at hslot
  cases hch : chain s.history with
  | nil => rw [hch] at hslot; cases hslot
  | cons newest rest =>
    rw [hch] at hslot hgood
    cases hslot
    exact goodChain_split hgood

/-- A login and a rotation that keeps its subject. -/
theorem stored_eq_login_rotated : ∃ (s : State Unit) (c : StoredCredential),
    s.slot = some c ∧ c.refreshGeneration = 1 ∧ ContinuesLogin (chain s.history) c := by
  have hrun : (runLoginThenStatus nextSession keepsSubject).any
      (fun c => c.1.slot.any fun stored => stored.refreshGeneration == 1) = true := by
    decide +kernel
  obtain ⟨⟨s, r⟩, hs, hslot⟩ := (Option.any_eq_true _ _).mp hrun
  obtain ⟨c, hc, hgen⟩ := (Option.any_eq_true _ _).mp hslot
  have hreach := runLoginThenStatus_reachable
    (fun s p e answer _ => AtReading (KeepsSubject sampleCrates sampleConfig) s p e answer)
    (fun _ _ _ _ h => atReading_of_keepsSubject h) hs
  exact ⟨s, c, hc, by simpa using hgen, stored_eq_login sampleClient hreach c hc⟩

/-- A provider that signs the id token of a rotation for another subject: the rotation is stored. -/
theorem stored_subject_changes : ∃ (s : State Unit)
    (r : Pool.Running Event Event.Answer AccountError Unit Unit Operation) (c : StoredCredential),
    Pool.Reachable (accountWorld sampleCrates sampleConfig fun _ _ => True)
      (Operation.program sampleCrates sampleClient) (State.initial none) s r
      ∧ s.slot = some c ∧ ¬ContinuesLogin (chain s.history) c := by
  have hrun : (runLoginThenStatus strangeSession fun _ _ _ => true).any
      (fun c => subjectChanged c.1) = true := by
    decide +kernel
  obtain ⟨⟨s, r⟩, hs, hchanged⟩ := (Option.any_eq_true _ _).mp hrun
  have hreach := runLoginThenStatus_reachable (fun _ _ _ _ _ => True)
    (fun _ _ _ _ _ => trivial) hs
  obtain ⟨c, hc, hnot⟩ := subjectChanged_not_continues hchanged
  exact ⟨s, r, c, Pool.reachable_of_restrict hreach, hc, hnot⟩

end Kaleidoscope.Account
