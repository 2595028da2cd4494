import Kaleidoscope.Account.Chain

/-!
# Several processes on one store

Any number of processes run operations on one credential store.  The refresh lock serializes
the refreshes; the look of a login, its save and the delete of a logout are not under it.
An operation that writes the store after another one wrote it since its last look undoes the
other's write.

    linear_of_undisturbed    no credential comes back after a logout, and a login's credential is
                             replaced or removed only by an operation that loaded it, as long as
                             each write finds the store as the operation last saw it
-/

namespace Kaleidoscope.Account

variable {Pid : Type}

/-! ## Histories -/

/-- The entry changed what the store holds. -/
def Entry.writes : Entry Pid → Bool
  | .did _ _ (.save _) (.ok _) => true
  | .did _ _ .delete (.ok _) => true
  | _ => false

/-- A logout returned success. -/
def Entry.loggedOut : Entry Pid → Bool
  | .returned _ (.logout _ _) (.ok _) => true
  | _ => false

/-- What the store holds after the history. -/
def slotAt (slot : Option StoredCredential) : List (Entry Pid) → Option StoredCredential
  | [] => slot
  | .did _ _ e answer :: earlier => slotAfter (slotAt slot earlier) e answer
  | _ :: earlier => slotAt slot earlier

variable [DecidableEq Pid]

/-- The process learned what the store holds: it loaded it or wrote it. -/
def Entry.looks (p : Pid) : Entry Pid → Bool
  | .did q _ .load (.ok _) => q = p
  | .did q _ (.save _) (.ok _) => q = p
  | .did q _ .delete (.ok _) => q = p
  | _ => false

def Entry.starts (p : Pid) : Entry Pid → Bool
  | .started q _ => q = p
  | _ => false

/-- The entries since the process last looked at the store. -/
def sinceLook (p : Pid) (history : List (Entry Pid)) : List (Entry Pid) :=
  history.takeWhile fun entry => !entry.looks p

/-- The entries since the process started its operation. -/
def sinceStart (p : Pid) (history : List (Entry Pid)) : List (Entry Pid) :=
  history.takeWhile fun entry => !entry.starts p

/-- Nobody wrote the store since the process last looked at it. -/
def Current (p : Pid) (history : List (Entry Pid)) : Prop :=
  ∀ entry ∈ sinceLook p history, entry.writes = false

/-- No logout returned success since the process started its operation. -/
def NoLogoutSince (p : Pid) (history : List (Entry Pid)) : Prop :=
  ∀ entry ∈ sinceStart p history, entry.loggedOut = false

/-- The running operation of the process loaded the credential. -/
def Loaded (p : Pid) (c : StoredCredential) (history : List (Entry Pid)) : Prop :=
  ∃ operation, .did p operation .load (.ok (some c)) ∈ sinceStart p history

/-- Where a login stored what the store holds, the process loaded it. -/
def LoadedLogin (p : Pid) (history : List (Entry Pid)) : Prop :=
  ∀ stored ∈ (chain history).head?, stored.byLogin = true → Loaded p stored.credential history

/-- One entry after the earlier ones: a save does not fill the store again after a logout that
returned while the operation ran, and a write does not undo a login the operation never saw. -/
def LinearEntry (slot : Option StoredCredential) (earlier : List (Entry Pid)) :
    Entry Pid → Prop
  | .did p _ (.save _) (.ok _) =>
    (slotAt slot earlier = none → NoLogoutSince p earlier) ∧ LoadedLogin p earlier
  | .did p _ .delete (.ok _) => LoadedLogin p earlier
  | _ => True

/-- Every entry of the history is linear after those before it. -/
def Linear (slot : Option StoredCredential) : List (Entry Pid) → Prop
  | [] => True
  | entry :: earlier => LinearEntry slot earlier entry ∧ Linear slot earlier

/-- The condition on a write: the store is as the process last saw it, and where a login saves
no logout has returned since it started. -/
def Undisturbed (s : State Pid) (p : Pid) : (e : Event) → e.Answer → Prop
  | .save _, .ok _ =>
    Current p s.history
      ∧ ((s.operation p).any Operation.isLogin = true → NoLogoutSince p s.history)
  | .delete, .ok _ => Current p s.history
  | _, _ => True

/-! ## Lemmas -/

variable {crates : External} {config : AccountClientConfig}
variable {entry : Entry Pid} {history : List (Entry Pid)} {p q : Pid}

theorem current_cons (h : entry.looks p = false) :
    Current p (entry :: history) ↔ entry.writes = false ∧ Current p history := by
  simp [Current, sinceLook, h]

theorem current_of_looks (h : entry.looks p = true) : Current p (entry :: history) := by
  simp [Current, sinceLook, h]

theorem loaded_cons {c : StoredCredential} (hstart : entry.starts p = false)
    (h : Loaded p c history) : Loaded p c (entry :: history) := by
  obtain ⟨operation, hmem⟩ := h
  refine ⟨operation, ?_⟩
  simp [sinceStart, hstart] at hmem ⊢
  exact .inr hmem

omit [DecidableEq Pid] in
theorem chain_of_not_writes (h : entry.writes = false) :
    chain (entry :: history) = chain history := by
  cases entry with
  | did p operation e answer =>
    cases e with
    | save credential => cases answer with
      | error x => rfl
      | ok u => cases h
    | delete => cases answer with
      | error x => rfl
      | ok removed => cases h
    | _ => rfl
  | _ => rfl

omit [DecidableEq Pid] in
theorem slotAfter_of_not_writes {operation : Option Operation} {slot : Option StoredCredential}
    {e : Event} {answer : e.Answer} (h : (Entry.did p operation e answer).writes = false) :
    slotAfter slot e answer = slot := by
  cases e with
  | save credential => cases answer with
    | error x => rfl
    | ok u => cases h
  | delete => cases answer with
    | error x => rfl
    | ok removed => cases h
  | _ => rfl

/-- An entry that neither writes nor loads leaves what the process saw. -/
theorem after_seen_of_not_looks (crates : External) (config : AccountClientConfig)
    {operation : Option Operation} {e : Event} {answer : e.Answer}
    (h : (Entry.did p operation e answer).looks p = false) (v : View) :
    (v.after crates config e answer).seen = v.seen := by
  cases e with
  | load => cases answer with
    | error x => rfl
    | ok stored => simp [Entry.looks] at h
  | save credential => cases answer with
    | error x => rfl
    | ok u => simp [Entry.looks] at h
  | delete => cases answer with
    | error x => rfl
    | ok removed => simp [Entry.looks] at h
  | getOidcDocument kind url deadline => cases kind <;> cases answer <;> rfl
  | send request deadline => cases answer with
    | error x => rfl
    | ok response =>
      simp only [View.after]
      split <;> rfl
  | _ => rfl

/-! ## The run -/

/-- What a running operation knows of the store while nobody else has written it. -/
structure Knows (slot : Option StoredCredential) (history : List (Entry Pid)) (p : Pid)
    (l : View) : Prop where
  current : ∀ stored, l.seen = some stored → Current p history → slot = stored
  loaded : l.seen.isSome = true → l.login = false → Current p history → LoadedLogin p history

/-- The coupling of the run. -/
structure LinearKept (first : Option StoredCredential) (s : State Pid)
    (v : Pool.Locals Pid Operation View) : Prop where
  kept : Kept s v
  slot : s.slot = slotAt first s.history
  stored : ∀ stored ∈ (chain s.history).head?, s.slot = some stored.credential
  knows : ∀ p o l, v p = some (o, l) → Knows s.slot s.history p l
  linear : Linear first s.history

theorem loadedLogin_cons (hstart : entry.starts p = false) (hwrites : entry.writes = false)
    (h : LoadedLogin p history) : LoadedLogin p (entry :: history) := by
  intro stored hstored hlogin
  rw [chain_of_not_writes hwrites] at hstored
  exact loaded_cons hstart (h stored hstored hlogin)

/-- An entry that is no look of the process, and no start, keeps what its operation knows. -/
theorem Knows.cons {slot slot' : Option StoredCredential} {l : View}
    (h : Knows slot history p l) (hlook : entry.looks p = false)
    (hstart : entry.starts p = false) (hslot : entry.writes = false → slot' = slot) :
    Knows slot' (entry :: history) p l := by
  refine ⟨fun stored hseen hcurrent => ?_, fun hseen hlogin hcurrent => ?_⟩
  · obtain ⟨hwrites, hcurrent⟩ := (current_cons hlook).mp hcurrent
    exact (hslot hwrites).trans (h.current stored hseen hcurrent)
  · obtain ⟨hwrites, hcurrent⟩ := (current_cons hlook).mp hcurrent
    exact loadedLogin_cons hstart hwrites (h.loaded hseen hlogin hcurrent)

theorem looks_other {operation : Option Operation} {e : Event} {answer : e.Answer}
    (h : q ≠ p) : (Entry.did p operation e answer).looks q = false := by
  cases e with
  | load => cases answer <;> simp [Entry.looks, h.symm]
  | save credential => cases answer <;> simp [Entry.looks, h.symm]
  | delete => cases answer <;> simp [Entry.looks, h.symm]
  | _ => rfl

/-- What the operation itself knows after its event. -/
theorem knows_own {s : State Pid} {o : Operation} {l : View} {e : Event} {answer : e.Answer}
    (h : Knows s.slot s.history p l) (hop : s.operation p = some o) (hlogin : l.login = o.isLogin)
    (hstored : ∀ stored ∈ (chain s.history).head?, s.slot = some stored.credential)
    (hans : Answers s e answer) :
    Knows (slotAfter s.slot e answer) (.did p (s.operation p) e answer :: s.history) p
      (l.after crates config e answer) := by
  cases hlook : (Entry.did p (s.operation p) e answer).looks p with
  | false =>
    have hseen := after_seen_of_not_looks crates config hlook l
    have hlogin' := after_login crates config l e answer
    have hl : Knows s.slot s.history p (l.after crates config e answer) :=
      ⟨fun stored hs => h.current stored (hseen ▸ hs),
        fun hs hl => h.loaded (hseen ▸ hs) (hlogin' ▸ hl)⟩
    exact hl.cons hlook rfl slotAfter_of_not_writes
  | true =>
    cases e with
    | load => cases answer with
      | error x => cases hlook
      | ok found =>
        refine ⟨fun stored hs _ => ?_, fun _ _ _ stored hmem _ => ?_⟩
        · cases hs
          exact hans.symm
        · have hfound : found = some stored.credential := hans.trans (hstored stored hmem)
          subst hfound
          exact ⟨s.operation p, by simp [sinceStart, Entry.starts]⟩
    | save credential => cases answer with
      | error x => cases hlook
      | ok u =>
        refine ⟨fun stored hs _ => ?_, fun _ hl _ stored hmem hby => ?_⟩
        · cases hs
          rfl
        · simp only [chain, List.head?_cons, Option.mem_some_iff] at hmem
          subst hmem
          have hl' : l.login = false := hl
          simp [Stored.byLogin, hop, ← hlogin, hl'] at hby
    | delete => cases answer with
      | error x => cases hlook
      | ok removed =>
        refine ⟨fun stored hs _ => ?_, fun _ _ _ stored hmem _ => ?_⟩
        · cases hs
          rfl
        · cases hmem
    | _ => cases hlook

/-- The new entry is linear after those before it. -/
theorem linearEntry_event {first : Option StoredCredential} {s : State Pid}
    {v : Pool.Locals Pid Operation View} {o : Operation} {l : View} {e : Event} {answer : e.Answer}
    (h : LinearKept first s v) (hp : v p = some (o, l)) (hmay : l.May crates config e)
    (hok : Undisturbed s p e answer) :
    LinearEntry first s.history (.did p (s.operation p) e answer) := by
  obtain ⟨hop, _, hlogin⟩ := h.kept p o l hp
  have hknows := h.knows p o l hp
  cases e with
  | save credential => cases answer with
    | error x => trivial
    | ok u =>
      obtain ⟨x, now, session, _, _, _, rfl, hseen, hnew, _⟩ := hmay
      obtain ⟨hcurrent, hnoLogout⟩ := hok
      have hslot := hknows.current x.expected hseen hcurrent
      refine ⟨fun hempty => hnoLogout ?_, fun stored hmem hby => ?_⟩
      · -- only a login fills an empty store
        have hexp : x.expected = none := hslot.symm.trans (h.slot.trans hempty)
        simp [hop, ← hlogin, hnew, hexp]
      · have hexp : x.expected = some stored.credential :=
          hslot.symm.trans (h.stored stored hmem)
        have hl : l.login = false := by rw [hnew, hexp]; rfl
        exact hknows.loaded (by rw [hseen]; rfl) hl hcurrent stored hmem hby
  | delete => cases answer with
    | error x => trivial
    | ok removed => exact hknows.loaded hmay.seen hmay.login hok
  | _ => trivial

theorem linearKept_event {first : Option StoredCredential} {s : State Pid}
    {v : Pool.Locals Pid Operation View} {o : Operation} {l : View} {e : Event} {answer : e.Answer}
    (h : LinearKept first s v) (hp : v p = some (o, l)) (hmay : l.May crates config e)
    (hans : Answers s e answer) (hok : Undisturbed s p e answer) :
    LinearKept first (s.after crates config p e answer)
      (Function.update v p (some (o, l.after crates config e answer))) := by
  obtain ⟨hop, _, hlogin⟩ := h.kept p o l hp
  refine ⟨kept_event h.kept hp e answer, ?_, fun stored hmem => ?_, fun q o' l' hq => ?_,
    linearEntry_event h hp hmay hok, h.linear⟩
  · simp [State.after, slotAt, h.slot]
  · cases hwrites : (Entry.did p (s.operation p) e answer).writes with
    | false =>
      have hmem : stored ∈ (chain s.history).head? := chain_of_not_writes hwrites ▸ hmem
      exact (slotAfter_of_not_writes hwrites).trans (h.stored stored hmem)
    | true =>
      cases e with
      | save credential => cases answer with
        | error x => cases hwrites
        | ok u =>
          cases hmem
          rfl
      | delete => cases answer with
        | error x => cases hwrites
        | ok removed => cases hmem
      | _ => cases hwrites
  · by_cases hqp : q = p
    · subst hqp
      simp only [Function.update_self, Option.some.injEq, Prod.mk.injEq] at hq
      obtain ⟨rfl, rfl⟩ := hq
      exact knows_own (h.knows q o l hp) hop hlogin h.stored hans
    · rw [Function.update_of_ne hqp] at hq
      exact (h.knows q o' l' hq).cons (looks_other hqp) rfl slotAfter_of_not_writes

theorem linearKept_start {first : Option StoredCredential} {s : State Pid}
    {v : Pool.Locals Pid Operation View} {o : Operation} (h : LinearKept first s v) :
    LinearKept first (s.start p o) (Function.update v p (some (o, o.view))) := by
  refine ⟨kept_start h.kept p o, h.slot, h.stored, fun q o' l hq => ?_, trivial, h.linear⟩
  by_cases hqp : q = p
  · subst hqp
    simp only [Function.update_self, Option.some.injEq, Prod.mk.injEq] at hq
    obtain ⟨rfl, rfl⟩ := hq
    exact ⟨fun _ hseen => (nomatch hseen), fun hseen => (nomatch hseen)⟩
  · rw [Function.update_of_ne hqp] at hq
    have hstart : (Entry.started p o).starts q = false := by
      simpa [Entry.starts] using Ne.symm hqp
    exact (h.knows q o' l hq).cons rfl hstart fun _ => rfl

theorem linearKept_finish {first : Option StoredCredential} {s : State Pid}
    {v : Pool.Locals Pid Operation View} {o : Operation} {result : AccountResult Unit}
    (h : LinearKept first s v) :
    LinearKept first (s.finish p o result) (Function.update v p none) := by
  refine ⟨kept_finish h.kept, h.slot, h.stored, fun q o' l hq => ?_, trivial, h.linear⟩
  by_cases hqp : q = p
  · subst hqp
    simp at hq
  · rw [Function.update_of_ne hqp] at hq
    exact (h.knows q o' l hq).cons rfl rfl fun _ => rfl

/-- Any number of processes, in runs where every write is undisturbed. -/
def undisturbedWorld (crates : External) (config : AccountClientConfig) :
    Pool.World Event Event.Answer AccountError Unit (State Pid) Pid Operation :=
  (accountWorld crates config fun _ _ => True).restrict
    fun s p e answer _ => Undisturbed s p e answer

/-! ## Two scripted runs -/

/-- A status that has validated its rotated session, and a logout that is started beside it. -/
def statusBesideLogout : List (Pool.Turn Nat Operation) :=
  .start 0 .status :: List.replicate 12 (.event 0)
    ++ [.start 1 (.logout .currentSession .confirmedLocalOnly)]

def logoutTurns : List (Pool.Turn Nat Operation) := [.event 1, .event 1, .finish 1]

/-- The condition as a test on the next event of a scripted run. -/
def undisturbed (s : State Nat) (p : Nat) : Event → Bool
  | .save _ =>
    (sinceLook p s.history).all (fun entry => !entry.writes)
      && (!(s.operation p).any Operation.isLogin
        || (sinceStart p s.history).all fun entry => !entry.loggedOut)
  | .delete => (sinceLook p s.history).all fun entry => !entry.writes
  | _ => true

theorem undisturbed_sound {rotation : WireResponse} {s : State Nat} {p : Nat} {e : Event}
    (h : undisturbed s p e = true) : Undisturbed s p e (sampleAnswer rotation s e) := by
  cases e with
  | save credential =>
    simp only [undisturbed, Bool.and_eq_true, List.all_eq_true, Bool.not_eq_true',
      Bool.or_eq_true] at h
    refine ⟨h.1, fun hlogin => ?_⟩
    rcases h.2 with hnot | hall
    · rw [hlogin] at hnot
      cases hnot
    · exact hall
  | delete => simpa [undisturbed, Undisturbed, Current, sampleAnswer] using h
  | _ => trivial

def runBeside (allowed : State Nat → Nat → Event → Bool) (turns : List (Pool.Turn Nat Operation)) :
    Option (State Nat × Pool.Running Event Event.Answer AccountError Unit Nat Operation) :=
  Pool.drive (sampleScript sampleCrates sampleConfig ⟨200, sampleBody nextSession⟩
      (fun _ _ => true) allowed)
    (Operation.program sampleCrates sampleClient) (statusBesideLogout ++ turns)
    (State.initial (some sampleCredential), fun _ => none)

theorem runBeside_reachable {allowed : State Nat → Nat → Event → Bool}
    {turns : List (Pool.Turn Nat Operation)}
    (ok : State Nat → Nat → (e : Event) → e.Answer → State Nat → Prop)
    (hok : ∀ s p e s', allowed s p e = true →
      ok s p e (sampleAnswer ⟨200, sampleBody nextSession⟩ s e) s')
    {c : State Nat × Pool.Running Event Event.Answer AccountError Unit Nat Operation}
    (h : runBeside allowed turns = some c) :
    Pool.Reachable ((accountWorld sampleCrates sampleConfig fun _ _ => True).restrict ok)
      (Operation.program sampleCrates sampleClient) (State.initial (some sampleCredential))
      c.1 c.2 :=
  Pool.drive_reachable (sampleScript_sound (fun _ _ _ => trivial) hok) _ .init h

/-- The last event fills the store again after a logout returned. -/
def comesBack (slot : Option StoredCredential) : List (Entry Nat) → Bool
  | .did p _ (.save _) (.ok _) :: earlier =>
    (slotAt slot earlier).isNone && (sinceStart p earlier).any Entry.loggedOut
  | _ => false

theorem comesBack_not_linear {slot : Option StoredCredential} {history : List (Entry Nat)}
    (h : comesBack slot history = true) : ¬Linear slot history := by
  unfold comesBack at h
  split at h
  next p operation credential u earlier =>
    rintro ⟨⟨hfills, _⟩, _⟩
    obtain ⟨hnone, hlogout⟩ := Bool.and_eq_true _ _ ▸ h
    obtain ⟨entry, hmem, hout⟩ := List.any_eq_true.mp hlogout
    have hnot := hfills (Option.isNone_iff_eq_none.mp hnone) entry hmem
    rw [hnot] at hout
    cases hout
  next => cases h

/-! ## Top theorems -/

/-- In every run whose writes are undisturbed the history is linear. -/
theorem linear_of_undisturbed (client : AccountClient) {slot : Option StoredCredential}
    {s : State Pid} {r : Pool.Running Event Event.Answer AccountError Unit Pid Operation}
    (run : Pool.Reachable (undisturbedWorld crates client.config) (Operation.program crates client)
      (State.initial slot) s r) : Linear slot s.history := by
  have hJ : Pool.Invariant (undisturbedWorld crates client.config)
      (storeDiscipline crates client.config) (fun _ _ v => v.Settled crates client.config)
      Operation.view (State.initial slot : State Pid) (LinearKept slot) :=
    { init := ⟨fun _ _ _ h => (nomatch h), rfl, fun _ h => (nomatch h),
        fun _ _ _ h => (nomatch h), trivial⟩
      start := by
        rintro s v p o s' h _ ⟨_, rfl⟩
        exact linearKept_start h
      event := by
        rintro s v p o l e answer s' h hp hmay ⟨⟨hans, rfl⟩, hok⟩
        exact linearKept_event h hp hmay hans hok
      finish := by
        rintro s v p o l result s' h _ _ rfl
        exact linearKept_finish h }
  obtain ⟨v, hv, _⟩ := Pool.reachable_invariant (operation_follows client) hJ run
  exact hv.linear

/-- The status stores its session before the logout looks. -/
theorem linear_of_undisturbed_logout : ∃ s : State Nat,
    s.slot = none ∧ s.history.length = 18 ∧ Linear (some sampleCredential) s.history := by
  have hrun : (runBeside undisturbed (.event 0 :: logoutTurns)).any
      (fun c => c.1.slot.isNone && c.1.history.length == 18) = true := by
    decide +kernel
  obtain ⟨⟨s, r⟩, hs, hstate⟩ := (Option.any_eq_true _ _).mp hrun
  obtain ⟨hslot, hlength⟩ := Bool.and_eq_true _ _ ▸ hstate
  have hreach := runBeside_reachable (fun s p e answer _ => Undisturbed s p e answer)
    (fun _ _ _ _ h => undisturbed_sound h) hs
  exact ⟨s, Option.isNone_iff_eq_none.mp hslot, by simpa using hlength,
    linear_of_undisturbed sampleClient hreach⟩

/-- The logout deletes and returns while the status is under way: the status stores its session. -/
theorem logout_undone : ∃ (s : State Nat)
    (r : Pool.Running Event Event.Answer AccountError Unit Nat Operation),
    Pool.Reachable (accountWorld sampleCrates sampleConfig fun _ _ => True)
      (Operation.program sampleCrates sampleClient) (State.initial (some sampleCredential)) s r
      ∧ ¬Linear (some sampleCredential) s.history := by
  have hrun : (runBeside (fun _ _ _ => true) (logoutTurns ++ [.event 0])).any
      (fun c => comesBack (some sampleCredential) c.1.history) = true := by
    decide +kernel
  obtain ⟨⟨s, r⟩, hs, hback⟩ := (Option.any_eq_true _ _).mp hrun
  have hreach := runBeside_reachable (fun _ _ _ _ _ => True)
    (fun _ _ _ _ _ => trivial) hs
  exact ⟨s, r, Pool.reachable_of_restrict hreach, comesBack_not_linear hback⟩

end Kaleidoscope.Account
