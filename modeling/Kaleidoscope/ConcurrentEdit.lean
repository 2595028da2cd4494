import Kaleidoscope.Apply

/-!
# Applying a plan beside other writers

Other programs change the file system between any two steps of an `apply`, and any of its steps
may fail.  The lock keeps out other managers only.

    apply_respects_edits    a file that differs from its snapshot when it is checked under the lock
                            stops the apply; a target that nobody else changed since `apply` last
                            looked at it holds what `apply` wrote when it is put back

A connection or an instruction plan looks at the target again before it puts it back.  A hook plan
last saw it when it wrote it.
-/

namespace Kaleidoscope

open Prog Disk

/-- Other writers: what they make of the file system before each step of an apply, and which of
its steps fail. -/
structure Others where
  edit : Nat → Fs → Fs
  fails : Nat → Bool

/-- The number of a step, and the drive that the step before it left. -/
abbrev Moment := Nat × Drive Site

namespace Others

variable (o : Others)

/-- The drive as the step finds it. -/
def found (s : Moment) : Drive Site := { s.2 with fs := o.edit s.1 s.2.fs }

def env (s : Moment) (step : Step Site) : step.Answer × Moment :=
  if o.fails s.1 then (.error .other, (s.1 + 1, o.found s))
  else (((o.found s).perform step.call).1, (s.1 + 1, ((o.found s).perform step.call).2))

end Others

/-- A file with this content, or none. -/
def ContentIs (content : Option Bytes) (node : Option Node) : Prop :=
  match content with
  | some bytes => ∃ mode, node = some (.file bytes mode)
  | none => node = none

section

variable {Kind Receipt : Type} {suffix : String} (codec : ReceiptCodec Receipt)
  (traits : Traits) (plan : Plan Kind Receipt suffix)

/-- The target holds what the apply wrote. -/
def HoldsWritten (node : Option Node) : Prop :=
  ContentIs (plan.write.resultingBytes plan.original.bytes) node

/-- A step that replaces the target when it is put back. -/
def Replaces (step : Step Site) : Prop :=
  step.site = .restore ∧ step.call.touches = some plan.target

/-- The steps after the last look that `apply` took at the target before it puts it back. -/
def Watched (step : Step Site) : Prop :=
  step.site = .restore
    ∨ traits.guarded = false
      ∧ (step.site = .receipt ∨ step.site = .target ∧ isSync plan step.call = true)

/-- Nobody else changed the target just before a watched step. -/
def Undisturbed (o : Others) (s : Moment) (step : Step Site) : Prop :=
  Watched traits plan step → (o.found s).fs.get plan.target = s.2.fs.get plan.target

/-- The target is replaced only where it holds what the apply wrote. -/
def ReplacesOwn (o : Others) (s : Moment) (step : Step Site) : Prop :=
  Replaces plan step → HoldsWritten plan ((o.found s).fs.get plan.target)

/-- The two files are not touched by the step. -/
def Untouched (step : Step Site) : Prop :=
  step.call.touches ≠ some plan.target ∧ step.call.touches ≠ some plan.receiptPath.path

/-- The program ends with an error and touches neither file; where the check could read the
file, the error is that of a concurrent edit. -/
def Refused (o : Others) (program : FsProg Unit) (s : Moment) (read : Result Snapshot) : Prop :=
  (∃ x s', run o.env program s = some (.error x, s')
      ∧ ∀ snapshot, read = .ok snapshot → x = .concurrentEdit)
    ∧ ∀ call ∈ calls o.env program s, Untouched plan call.2

/-- The snapshot of the target that is compared under the lock. -/
def lookTarget : FsProg Snapshot :=
  readSnapshot codec.digestBytes .checkTarget plan.target traits.maxTargetBytes traits.targetName

def lookReceipt : FsProg Snapshot :=
  readSnapshot codec.digestBytes .checkReceipt plan.receiptPath.path maxReceiptBytes
    traits.receiptName

/-- Whatever is read under the lock and is not the snapshot of the plan stops the program. -/
def Verifies (o : Others) (program : FsProg Unit) (s : Moment) : Prop :=
  ∀ lock s₁ target s₂, run o.env (acquireLock .lock plan.target) s = some (.ok lock, s₁) →
    run o.env (lookTarget codec traits plan) s₁ = some (target, s₂) →
    (target ≠ .ok plan.original → Refused plan o program s target)
      ∧ ∀ receipt s₃, target = .ok plan.original →
        run o.env (lookReceipt codec traits plan) s₂ = some (receipt, s₃) →
        receipt ≠ .ok plan.receiptOriginal → Refused plan o program s receipt

/-- Every replacement of the target by the program is of what it wrote, as long as nobody else
changed the target since it last looked. -/
def RestoresOwn (o : Others) (program : FsProg Unit) (s : Moment) : Prop :=
  (∀ call ∈ calls o.env program s, Undisturbed traits plan o call.1 call.2) →
    ∀ call ∈ calls o.env program s, ReplacesOwn plan o call.1 call.2

end

/-! ## One step -/

section

variable {o : Others} {s s' : Moment} {site : Site} {path : PosixPath}

theorem env_same {step : Step Site} (h : step.call.touches ≠ some path) :
    (o.env s step).2.2.fs.get path = (o.found s).fs.get path := by
  unfold Others.env
  split
  · rfl
  · exact (perform_frame (o.found s) step.call).2 path h

theorem metadata_ok {metadata : Metadata}
    (h : (o.env s ⟨site, .metadata path⟩).1 = .ok metadata) :
    ∃ node, (o.env s ⟨site, .metadata path⟩).2.2.fs.get path = some node
      ∧ metadata = node.metadata := by
  rw [env_same (by simp [Call.touches])]
  unfold Others.env at h
  split at h
  · cases h
  · simp only [Drive.perform] at h
    cases hn : (o.found s).fs.get path with
    | none =>
      rw [hn] at h
      cases h
    | some node =>
      rw [hn] at h
      cases h
      exact ⟨node, rfl, rfl⟩

theorem metadata_notFound
    (h : (o.env s ⟨site, .metadata path⟩).1 = .error .notFound) :
    (o.env s ⟨site, .metadata path⟩).2.2.fs.get path = none := by
  rw [env_same (by simp [Call.touches])]
  unfold Others.env at h
  split at h
  · cases h
  · simp only [Drive.perform] at h
    cases hn : (o.found s).fs.get path with
    | none => rfl
    | some node =>
      rw [hn] at h
      cases h

theorem read_ok {bytes : Bytes} (h : (o.env s ⟨site, .read path⟩).1 = .ok bytes) :
    ∃ mode, (o.env s ⟨site, .read path⟩).2.2.fs.get path = some (.file bytes mode) := by
  rw [env_same (by simp [Call.touches])]
  unfold Others.env at h
  split at h
  · cases h
  · simp only [Drive.perform] at h
    cases hn : (o.found s).fs.get path with
    | none =>
      rw [hn] at h
      cases h
    | some node =>
      rw [hn] at h
      cases node with
      | file found mode =>
        cases h
        exact ⟨mode, rfl⟩
      | directory => cases h
      | symlink => cases h
      | special => cases h

theorem act_publish {d d' : Drive Site} {bytes : Bytes} {mode : Nat}
    (h : d.act (.publish path) = .ok d') (ht : d.temporary = some (bytes, mode)) :
    d'.fs.get path = some (.file bytes mode) := by
  by_cases hdir : d.fs.get path = some .directory
  · simp only [Drive.act, ht, hdir] at h
    cases h
  · have hset : d.act (.publish path)
        = .ok { d with fs := d.fs.set path (.file bytes mode), temporary := none } := by
      simp only [Drive.act, ht]
    rw [hset] at h
    rw [← Except.ok.inj h]
    simp [Fs.get_set]

theorem act_ok {action : Action} (h : (o.env s ⟨site, .act action⟩).1 = .ok ()) :
    (o.found s).act action = .ok (o.env s ⟨site, .act action⟩).2.2 := by
  unfold Others.env at h ⊢
  split at h
  · cases h
  next hfails =>
    rw [if_neg hfails]
    simp only [Drive.perform] at h ⊢
    cases hact : (o.found s).act action with
    | ok d' => rfl
    | error kind =>
      rw [hact] at h
      cases h

end

/-! ## What is put back -/

section

variable {Kind Receipt : Type} {suffix : String} {codec : ReceiptCodec Receipt}
  {traits : Traits} {plan : Plan Kind Receipt suffix} {o : Others} {s : Moment} {α β : Type}

/-- A run whose replacements are checked, as long as the watched steps are undisturbed. -/
abbrev Guards (o : Others) (traits : Traits) (plan : Plan Kind Receipt suffix)
    (Q : Result α → Moment → Prop) (p : FsProg α) (s : Moment) : Prop :=
  Keeps o.env (Undisturbed traits plan o) (ReplacesOwn plan o) Q p s

/-- The target holds what the apply wrote, at this moment. -/
def OwnAt (plan : Plan Kind Receipt suffix) (s : Moment) : Prop :=
  HoldsWritten plan (s.2.fs.get plan.target)

theorem guards_call_bind {site : Site} {c : Call} {Q : Result β → Moment → Prop}
    {f : Except IoKind c.Value → FsProg β} :
    Guards o traits plan Q (call site c >>= f) s
      ↔ (Undisturbed traits plan o s ⟨site, c⟩ → ReplacesOwn plan o s ⟨site, c⟩
        ∧ Guards o traits plan Q (f (o.env s ⟨site, c⟩).1) (o.env s ⟨site, c⟩).2) := Iff.rfl

/-- Steps elsewhere replace nothing. -/
theorem guards_elsewhere {p : FsProg α} (hp : Only (fun step => ¬Replaces plan step) p)
    (s : Moment) : Guards o traits plan (fun _ _ => True) p s :=
  keeps_of_only (fun _ _ hq _ _ => ⟨fun h => absurd h hq, trivial⟩) hp trivial

/-- Watched steps that do not touch the target keep what it holds. -/
theorem guards_steady {p : FsProg α}
    (hp : Only (fun step => Watched traits plan step ∧ step.call.touches ≠ some plan.target) p)
    (hown : OwnAt plan s) :
    Guards o traits plan (fun _ s' => OwnAt plan s') p s := by
  refine keeps_of_only (fun s step hq hown hrely => ?_) hp hown
  refine ⟨fun h => absurd h.2 hq.2, ?_⟩
  unfold OwnAt
  rw [env_same hq.2, hrely hq.1]
  exact hown

theorem not_replaces_of_within {site : Site} {touched : PosixPath → Prop} {step : Step Site}
    (hsite : site ≠ .restore) (h : Within site touched step) : ¬Replaces plan step :=
  fun hr => hsite (h.1.symm.trans hr.1)

theorem steady_of_within {site : Site} {touched : PosixPath → Prop} {step : Step Site}
    (hsite : site = .restore ∨ traits.guarded = false ∧ site = .receipt)
    (htouched : ¬touched plan.target) (h : Within site touched step) :
    Watched traits plan step ∧ step.call.touches ≠ some plan.target := by
  refine ⟨?_, fun ht => htouched (h.2 _ ht)⟩
  rcases hsite with hs | ⟨hg, hs⟩
  · exact .inl (h.1.trans hs)
  · exact .inr ⟨hg, .inl (h.1.trans hs)⟩

/-- What an action leaves where it succeeds. -/
theorem act_guards {site : Site} {action : Action} {operation : String}
    (hreplaces : Undisturbed traits plan o s ⟨site, .act action⟩ →
      ReplacesOwn plan o s ⟨site, .act action⟩) :
    Guards o traits plan (fun res s' => res = .ok () →
        (o.found s).act action = .ok s'.2 ∧ Undisturbed traits plan o s ⟨site, .act action⟩)
      (act site action operation) s := by
  unfold act
  refine guards_call_bind.mpr fun hrely => ⟨hreplaces hrely, ?_⟩
  cases hanswer : (o.env s ⟨site, .act action⟩).1 with
  | ok u => exact fun _ => ⟨act_ok hanswer, hrely⟩
  | error kind =>
    intro h
    cases h

theorem ancestors_ne {path : PosixPath} (h : path ∈ plan.target.ancestors) : path ≠ plan.target := by
  rintro rfl
  exact absurd (PosixPath.length_lt_of_mem_ancestors h) (lt_irrefl _)

/-- The steps of a write after its rename replace nothing more. -/
theorem syncParent_guards (path : PosixPath) (site : Site) :
    Only (fun step => ¬Replaces plan step) (syncParent site path) := by
  have hwithin : Only (Within site fun _ => False) (syncParent site path) := syncParent_within
  exact only_mono (fun step h hr => h.2 _ hr.2) hwithin

theorem publish_guards {site : Site} {operation : String} (hown : OwnAt plan s)
    (hsite : site = .restore) :
    Guards o traits plan (fun _ _ => True)
      (act site (.publish plan.target) operation >>= fun _ => syncParent site plan.target) s := by
  refine keeps_bind (act_guards fun hrely _ => ?_) ?_ fun _ _ _ => trivial
  · rw [hrely (.inl hsite)]
    exact hown
  · exact fun _ s' _ => guards_elsewhere (syncParent_guards _ _) s'

theorem restoreTarget_guards (hown : OwnAt plan s) :
    Guards o traits plan (fun _ _ => True) (restoreTarget plan) s := by
  have hsteady : ∀ {β : Type} {p : FsProg β} {touched : PosixPath → Prop},
      ¬touched plan.target → Only (Within .restore touched) p →
      ∀ s', OwnAt plan s' → Guards o traits plan (fun _ s'' => OwnAt plan s'') p s' := by
    intro β p touched ht hp s' hs'
    exact guards_steady (only_mono (fun _ => steady_of_within (.inl rfl) ht) hp) hs'
  have hquiet : ∀ {action : Action} {operation : String},
      (∀ q, (Call.act action).touches = some q → False) →
      Only (Within .restore fun _ => False) (act .restore action operation) :=
    fun h => act_within h
  unfold restoreTarget restoreSnapshot
  cases plan.original.bytes with
  | some bytes =>
    have hparents : Only (Within .restore fun q => q ∈ plan.target.ancestors)
        (ensureParentDirectory .restore plan.target) :=
      ensureParentDirectory_within fun _ h => h
    refine keeps_bind (hsteady (fun h => ancestors_ne h rfl) hparents s hown) ?_
      fun _ _ _ => trivial
    intro _ s₁ h₁
    unfold replaceFile
    have hlook : Only (Within .restore fun _ => False)
        (call .restore (.metadata plan.target)) := call_within fun _ h => nomatch h
    refine keeps_bind (hsteady id hlook s₁ h₁) ?_ fun _ _ _ => trivial
    intro answer s₂ h₂
    refine keeps_failIf_bind (fun _ => ?_) fun _ => trivial
    refine keeps_bind (hsteady id (hquiet (by intro _ h; cases h)) s₂ h₂) ?_ fun _ _ _ => trivial
    intro _ s₃ h₃
    refine keeps_attempt_bind (keeps_mono (?_ : Guards o traits plan (fun _ _ => True) _ s₃)
      fun res s₄ _ => ?_)
    · unfold publishTemporary
      have hmode : Only (Within .restore fun _ => False)
          (setTemporaryMode .restore plan.target plan.original.unixMode) := by
        cases plan.original.unixMode with
        | none => trivial
        | some mode => exact hquiet fun _ h => nomatch h
      refine keeps_bind (hsteady id hmode s₃ h₃) ?_ fun _ _ _ => trivial
      intro _ s₅ h₅
      refine keeps_bind (hsteady id (hquiet (by intro _ h; cases h)) s₅ h₅) ?_ fun _ _ _ => trivial
      intro _ s₆ h₆
      refine keeps_bind (hsteady id (hquiet (by intro _ h; cases h)) s₆ h₆) ?_ fun _ _ _ => trivial
      exact fun _ s₇ h₇ => publish_guards h₇ rfl
    · cases res with
      | ok u => trivial
      | error x =>
        have hcleanup : Only (fun step => ¬Replaces plan step)
            (ignore .restore (.removeTemporary plan.target) >>= fun _ =>
              (fail x : FsProg Unit)) := by
          have hwithin : Only (Within .restore fun _ => False)
              (ignore .restore (.removeTemporary plan.target)) :=
            ignore_within fun _ h => nomatch h
          exact only_bind (only_mono (fun step h hr => h.2 _ hr.2) hwithin) fun _ => trivial
        exact guards_elsewhere hcleanup s₄
  | none =>
    unfold atomicRemove
    have hlook : Only (Within .restore fun _ => False)
        (symlinkMetadata .restore plan.target "inspect removal target") := symlinkMetadata_within
    refine keeps_bind (hsteady id hlook s hown) ?_ fun _ _ _ => trivial
    intro metadata s₁ h₁
    cases metadata with
    | none => trivial
    | some metadata =>
      refine keeps_failIf_bind (fun _ => ?_) fun _ => trivial
      refine keeps_bind (act_guards fun hrely _ => ?_) ?_ fun _ _ _ => trivial
      · rw [hrely (.inl rfl)]
        exact h₁
      · exact fun _ s₂ _ => guards_elsewhere (syncParent_guards _ _) s₂

/-- What a look at a file has seen is still there. -/
theorem readSnapshot_guards {site : Site} {path : PosixPath} {maximum : Nat} {name : String}
    (hsite : site ≠ .restore) :
    Guards o traits plan
      (fun res s' => ∀ snapshot, res = .ok snapshot →
        ContentIs snapshot.bytes (s'.2.fs.get path))
      (readSnapshot codec.digestBytes site path maximum name) s := by
  have hok : ∀ (c : Call) (s : Moment), Undisturbed traits plan o s ⟨site, c⟩ →
      ReplacesOwn plan o s ⟨site, c⟩ := fun c s _ h => absurd h.1 hsite
  unfold readSnapshot
  refine keeps_ofExcept_bind (fun _ _ => ?_) fun x _ snapshot h => nomatch h
  unfold symlinkMetadata
  rw [bind_assoc]
  refine guards_call_bind.mpr fun hrely => ⟨hok _ _ hrely, ?_⟩
  generalize hanswer : (o.env s ⟨site, .metadata path⟩).1 = answer
  cases answer with
  | error kind =>
    cases kind with
    | notFound =>
      intro snapshot h
      cases h
      exact metadata_notFound hanswer
    | alreadyExists =>
      intro snapshot h
      cases h
    | other =>
      intro snapshot h
      cases h
  | ok metadata =>
    refine keeps_failIf_bind (fun _ => ?_) fun _ snapshot h => nomatch h
    refine keeps_failIf_bind (fun _ => ?_) fun _ snapshot h => nomatch h
    unfold readFile
    rw [bind_assoc]
    refine guards_call_bind.mpr fun hrely => ⟨hok _ _ hrely, ?_⟩
    generalize hread : (o.env _ ⟨site, .read path⟩).1 = answer
    cases answer with
    | error kind =>
      intro snapshot h
      cases h
    | ok bytes =>
      refine keeps_failIf_bind (fun _ => ?_) fun _ snapshot h => nomatch h
      intro snapshot h
      cases h
      exact read_ok hread

theorem checkTarget_guards {site : Site} {expected : Snapshot} (hsite : site ≠ .restore) :
    Guards o traits plan
      (fun res s' => res = .ok () → ContentIs expected.bytes (s'.2.fs.get plan.target))
      (checkTarget codec traits plan site expected) s := by
  unfold checkTarget assertUnchanged
  refine keeps_bind (readSnapshot_guards hsite) ?_ fun x _ _ h => nomatch h
  intro snapshot s' hsnapshot
  refine keeps_ofExcept.mpr fun h => ?_
  have heq : ¬snapshot ≠ expected := rejectIf_eq_ok.mp h
  rw [← not_not.mp heq]
  exact hsnapshot snapshot rfl

theorem snapshotForWrite_bytes (write : TargetWrite) (original : Snapshot) :
    (snapshotForWrite codec write original).bytes = write.resultingBytes original.bytes := by
  cases write <;> rfl

/-- A plan that looks again puts back only what it wrote; one that does not is given that. -/
theorem recover_guards
    (hown : traits.guarded = false → plan.write.isLeave = false → OwnAt plan s) :
    Guards o traits plan (fun _ _ => True) (recover codec traits plan) s := by
  unfold recover
  by_cases hguarded : traits.guarded = true
  · rw [if_pos hguarded]
    refine keeps_attempt_bind (keeps_mono (checkTarget_guards (by decide)) fun res s' hres => ?_)
    cases res with
    | error x => trivial
    | ok u =>
      refine restoreTarget_guards ?_
      unfold OwnAt HoldsWritten
      rw [← snapshotForWrite_bytes]
      exact hres rfl
  · rw [if_neg hguarded]
    unfold runIf
    split
    next hleave => exact restoreTarget_guards (hown (Bool.eq_false_iff.mpr hguarded) hleave)
    next => trivial

/-! ## What a hook plan wrote -/

theorem syncParent_own (hguarded : traits.guarded = false) (hown : OwnAt plan s) :
    Guards o traits plan (fun res s' => res = .ok () → OwnAt plan s')
      (syncParent .target plan.target) s := by
  unfold syncParent
  cases hparent : plan.target.parent with
  | none =>
    intro h
    cases h
  | some parent =>
    refine keeps_mono (act_guards fun _ h => nomatch h.1) fun res s' hres h => ?_
    obtain ⟨hact, hquiet⟩ := hres h
    have hwatched : Watched traits plan ⟨.target, .act (.syncDirectory parent)⟩ :=
      .inr ⟨hguarded, .inr ⟨rfl, (isSync_iff hparent).mpr rfl⟩⟩
    have hsame : s'.2 = o.found s := by
      simp only [Drive.act] at hact
      split at hact
      · exact (Except.ok.inj hact).symm
      · cases hact
    unfold OwnAt
    rw [hsame, hquiet hwatched]
    exact hown

theorem publishTemporary_own {bytes : Bytes} {mode : Option Nat} (hguarded : traits.guarded = false)
    (hwrite : plan.write = .write bytes) :
    Guards o traits plan (fun res s' => res = .ok () → OwnAt plan s')
      (publishTemporary .target plan.target bytes mode) s := by
  have hok : ∀ (action : Action) (s : Moment), Undisturbed traits plan o s ⟨.target, .act action⟩ →
      ReplacesOwn plan o s ⟨.target, .act action⟩ := fun _ _ _ h => nomatch h.1
  have hnone : ∀ (x : ManagerError) (s' : Moment), (.error x : Result Unit) = .ok () →
      OwnAt plan s' := fun _ _ h => nomatch h
  have hmode : Only (fun step => ¬Replaces plan step)
      (setTemporaryMode .target plan.target mode) := by
    cases mode with
    | none => trivial
    | some mode =>
      have hwithin : Only (Within .target fun _ => False)
          (setTemporaryMode .target plan.target (some mode)) := act_within fun _ h => nomatch h
      exact only_mono (fun _ => not_replaces_of_within (by decide)) hwithin
  unfold publishTemporary
  refine keeps_bind (guards_elsewhere hmode s) ?_ fun x s' _ => hnone x s'
  intro _ s₁ _
  refine keeps_bind (act_guards (hok _ _)) ?_ fun x s' _ => hnone x s'
  intro _ s₂ h₂
  -- the temporary file holds the bytes from here to the rename
  have htemporary : ∃ m, s₂.2.temporary = some (bytes, m) := by
    have hact := (h₂ rfl).1
    simp only [Drive.act] at hact
    split at hact
    next m _ =>
      rw [← Except.ok.inj hact]
      exact ⟨m, rfl⟩
    next => cases hact
  refine keeps_bind (act_guards (hok _ _)) ?_ fun x s' _ => hnone x s'
  intro _ s₃ h₃
  have hkept : s₃.2.temporary = s₂.2.temporary := by
    have hact := (h₃ rfl).1
    simp only [Drive.act] at hact
    split at hact
    · rw [← Except.ok.inj hact]
      rfl
    · cases hact
  refine keeps_bind (act_guards (hok _ _)) ?_ fun x s' _ => hnone x s'
  intro _ s₄ h₄
  refine syncParent_own hguarded ?_
  obtain ⟨m, hm⟩ := htemporary
  have hact := (h₄ rfl).1
  have hfound : (o.found s₃).temporary = some (bytes, m) := hkept.trans hm
  unfold OwnAt HoldsWritten
  rw [hwrite]
  exact ⟨m, act_publish hact hfound⟩

theorem atomicWrite_own {bytes : Bytes} {mode : Option Nat} (hguarded : traits.guarded = false)
    (hwrite : plan.write = .write bytes) :
    Guards o traits plan (fun res s' => res = .ok () → OwnAt plan s')
      (atomicWrite .target plan.target bytes mode) s := by
  have helse : ∀ {β : Type} {p : FsProg β} {touched : PosixPath → Prop},
      Only (Within .target touched) p → ∀ s', Guards o traits plan (fun _ _ => True) p s' :=
    fun hp s' => guards_elsewhere (only_mono (fun _ => not_replaces_of_within (by decide)) hp) s'
  have hnone : ∀ (x : ManagerError) (s' : Moment), (.error x : Result Unit) = .ok () →
      OwnAt plan s' := fun _ _ h => nomatch h
  unfold atomicWrite
  have hparents : Only (Within .target fun q => q ∈ plan.target.ancestors)
      (ensureParentDirectory .target plan.target) := ensureParentDirectory_within fun _ h => h
  refine keeps_bind (helse hparents s) ?_ fun x s' _ => hnone x s'
  intro _ s₁ _
  unfold replaceFile
  have hlook : Only (Within .target fun _ => False)
      (call .target (.metadata plan.target)) := call_within fun _ h => nomatch h
  refine keeps_bind (helse hlook s₁) ?_ fun x s' _ => hnone x s'
  intro answer s₂ _
  refine keeps_failIf_bind (fun _ => ?_) fun _ => hnone _ _
  have hcreate : Only (Within .target fun _ => False)
      (act .target (.createTemporary plan.target (mode.getD 0o600)) "create temporary file") :=
    act_within fun _ h => nomatch h
  refine keeps_bind (helse hcreate s₂) ?_ fun x s' _ => hnone x s'
  intro _ s₃ _
  refine keeps_attempt_bind (keeps_mono (publishTemporary_own hguarded hwrite)
    fun res s₄ hres => ?_)
  cases res with
  | ok u => exact fun _ => hres rfl
  | error x =>
    have hcleanup : Only (Within .target fun _ => False)
        (ignore .target (.removeTemporary plan.target)) := ignore_within fun _ h => nomatch h
    refine keeps_bind (helse hcleanup s₄) ?_ fun x s' _ => hnone x s'
    exact fun _ s₅ _ => hnone x s₅

theorem atomicRemove_own (hguarded : traits.guarded = false) (hwrite : plan.write = .remove) :
    Guards o traits plan (fun res s' => res = .ok () → OwnAt plan s')
      (atomicRemove .target plan.target) s := by
  have hnone : ∀ (x : ManagerError) (s' : Moment), (.error x : Result Unit) = .ok () →
      OwnAt plan s' := fun _ _ h => nomatch h
  have habsent : ∀ {s' : Moment}, s'.2.fs.get plan.target = none → OwnAt plan s' := by
    intro s' h
    unfold OwnAt HoldsWritten
    rw [hwrite]
    exact h
  unfold atomicRemove symlinkMetadata
  rw [bind_assoc]
  refine guards_call_bind.mpr fun _ => ⟨fun h => (nomatch h.1), ?_⟩
  generalize hanswer : (o.env s ⟨.target, .metadata plan.target⟩).1 = answer
  cases answer with
  | error kind =>
    cases kind with
    | notFound => exact fun _ => habsent (metadata_notFound hanswer)
    | alreadyExists => exact hnone _ _
    | other => exact hnone _ _
  | ok metadata =>
    refine keeps_failIf_bind (fun _ => ?_) fun _ => hnone _ _
    refine keeps_bind (act_guards fun _ h => nomatch h.1) ?_ fun x s' _ => hnone x s'
    intro _ s₁ h₁
    refine syncParent_own hguarded (habsent ?_)
    have hact := (h₁ rfl).1
    simp only [Drive.act] at hact
    split at hact
    next => cases hact
    next => cases hact
    next =>
      rw [← Except.ok.inj hact]
      simp [Fs.get_remove]

theorem writeTarget_own (hguarded : traits.guarded = false) :
    Guards o traits plan (fun res s' => res = .ok () → plan.write.isLeave = false → OwnAt plan s')
      (writeTarget plan) s := by
  unfold writeTarget
  cases hwrite : plan.write with
  | write bytes =>
    exact keeps_mono (atomicWrite_own hguarded hwrite) fun _ _ h hres _ => h hres
  | remove => exact keeps_mono (atomicRemove_own hguarded hwrite) fun _ _ h hres _ => h hres
  | leave =>
    intro _ hleave
    simp [TargetWrite.isLeave] at hleave

theorem writeTarget_within : Only (Within .target fun q => q = plan.target
    ∨ q ∈ plan.target.ancestors) (writeTarget plan) := by
  unfold writeTarget
  split
  · exact only_bind (ensureParentDirectory_within fun _ h => .inr h) fun _ =>
      replaceFile_within (.inl rfl)
  · exact atomicRemove_within (.inl rfl)
  · trivial

theorem writeReceipt_within {receipt : Option Bytes} :
    Only (Within .receipt fun q => q = plan.receiptPath.path ∨ q ∈ plan.target.ancestors)
      (writeReceipt plan receipt) := by
  unfold writeReceipt
  cases receipt with
  | some bytes =>
    refine only_bind (ensureParentDirectory_within fun q hq => .inr ?_) fun _ =>
      replaceFile_within (.inl rfl)
    rw [PosixPath.ancestors_withSuffix plan.receiptPath.beside] at hq
    exact hq
  | none => exact atomicRemove_within (.inl rfl)

/-! ## The whole apply beside others -/

theorem finishReceipt_guards {receipt : Option Bytes} (hs : Apart suffix)
    (hown : traits.guarded = false → plan.write.isLeave = false → OwnAt plan s) :
    Guards o traits plan (fun _ _ => True) (finishReceipt codec traits plan receipt) s := by
  have hreceipt : Guards o traits plan
      (fun _ s' => traits.guarded = false → plan.write.isLeave = false → OwnAt plan s')
      (writeReceipt plan receipt) s := by
    by_cases h : traits.guarded = false ∧ plan.write.isLeave = false
    · refine keeps_mono (guards_steady (only_mono (fun _ => steady_of_within
        (.inr ⟨h.1, rfl⟩) ?_) writeReceipt_within) (hown h.1 h.2)) fun _ _ hown _ _ => hown
      rintro (hq | hq)
      · exact Plan.receipt_ne hs hq.symm
      · exact ancestors_ne hq rfl
    · refine keeps_mono (guards_elsewhere (only_mono (fun _ => not_replaces_of_within (by decide))
        writeReceipt_within) s) fun _ _ _ hg hl => absurd ⟨hg, hl⟩ h
  unfold finishReceipt
  refine keeps_attempt_bind (keeps_mono hreceipt fun res s₁ h₁ => ?_)
  cases res with
  | ok u =>
    have hdrop : Only (Within .removeBackup fun q => q = plan.backupPath.path)
        (dropBackup plan) := only_runIf (atomicRemove_within rfl)
    exact guards_elsewhere (only_mono (fun _ => not_replaces_of_within (by decide)) hdrop) s₁
  | error x =>
    exact keeps_bind (recover_guards h₁) (fun _ _ _ => trivial) fun _ _ _ => trivial

theorem saveBackup_within : Only (Within .backup fun _ => True) (saveBackup plan) := by
  refine only_runIf (only_bind ?_ fun _ => trivial)
  unfold writeBoundedBackup
  cases plan.original.bytes with
  | none => trivial
  | some bytes =>
    refine only_ofExcept_bind fun _ _ => only_bind ?_ fun _ => trivial
    exact only_bind (ensureParentDirectory_within fun _ _ => trivial) fun _ =>
      replaceFile_within trivial

theorem applyLocked_guards (hs : Apart suffix) :
    Guards o traits plan (fun _ _ => True) (applyLocked codec traits plan) s := by
  have helse : ∀ {β : Type} {site : Site} {p : FsProg β} {touched : PosixPath → Prop},
      site ≠ .restore → Only (Within site touched) p →
      ∀ s', Guards o traits plan (fun _ _ => True) p s' :=
    fun hsite hp s' => guards_elsewhere (only_mono (fun _ => not_replaces_of_within hsite) hp) s'
  have htarget : Only (Within .checkTarget fun _ => False)
      (checkTarget codec traits plan .checkTarget plan.original) := assertUnchanged_within
  have hreceipt : Only (Within .checkReceipt fun _ => False)
      (assertUnchanged codec.digestBytes .checkReceipt plan.receiptPath.path plan.receiptOriginal
        maxReceiptBytes traits.receiptName) := assertUnchanged_within
  unfold applyLocked
  refine keeps_bind (helse (by decide) htarget s) ?_ fun _ _ _ => trivial
  intro _ s₁ _
  refine keeps_bind (helse (by decide) hreceipt s₁) ?_ fun _ _ _ => trivial
  intro _ s₂ _
  refine keeps_bind (helse (by decide) saveBackup_within s₂) ?_ fun _ _ _ => trivial
  intro _ s₃ _
  refine keeps_bind (?_ : Guards o traits plan (fun res s' => res = .ok () →
    traits.guarded = false → plan.write.isLeave = false → OwnAt plan s') (writeTarget plan) s₃)
    ?_ fun _ _ _ => trivial
  · by_cases hguarded : traits.guarded = false
    · exact keeps_mono (writeTarget_own hguarded) fun _ _ h hres _ => h hres
    · exact keeps_mono (helse (by decide) writeTarget_within s₃) fun _ _ _ _ h =>
        absurd h hguarded
  · intro _ s₄ h₄
    refine keeps_ofExcept_bind (fun receipt _ => ?_) fun _ _ => trivial
    exact finishReceipt_guards hs (h₄ rfl)

theorem applyPlan_guards (hs : Apart suffix) :
    Guards o traits plan (fun _ _ => True) (applyPlan codec traits plan) s := by
  have helse : ∀ {β : Type} {site : Site} {p : FsProg β} {touched : PosixPath → Prop},
      site ≠ .restore → Only (Within site touched) p →
      ∀ s', Guards o traits plan (fun _ _ => True) p s' :=
    fun hsite hp s' => guards_elsewhere (only_mono (fun _ => not_replaces_of_within hsite) hp) s'
  have hlock : Only (Within .lock fun _ => True) (acquireLock .lock plan.target) :=
    acquireLock_within (fun _ _ => trivial) fun _ _ => trivial
  have hprune : Only (Within .prune fun _ => True) (runIf (plan.write.isRemove = true)
      (pruneEmptyManagedDirectories .prune plan.target)) :=
    only_runIf (pruneDirectories_within fun _ _ => trivial)
  unfold applyPlan
  refine keeps_bind (helse (by decide) hlock s) ?_ fun _ _ _ => trivial
  intro lock s₁ _
  have hrelease : Only (Within .release fun _ => True) (releaseLock .release lock) :=
    ignore_within fun _ _ => trivial
  refine keeps_bind (keeps_ensuring (keeps_mono (applyLocked_guards hs) fun _ s₂ _ =>
    helse (by decide) hrelease s₂)) ?_ fun _ _ _ => trivial
  exact fun _ s₃ _ => helse (by decide) hprune s₃

theorem restoresOwn (hs : Apart suffix) :
    RestoresOwn traits plan o (applyPlan codec traits plan) s :=
  fun hquiet => keeps_calls (applyPlan_guards hs) hquiet

/-! ## The check under the lock -/

theorem untouched_of_within {site : Site} {touched : PosixPath → Prop} {step : Step Site}
    (h : Within site touched step) (htarget : ¬touched plan.target)
    (hreceipt : ¬touched plan.receiptPath.path) : Untouched plan step :=
  ⟨fun ht => htarget (h.2 _ ht), fun ht => hreceipt (h.2 _ ht)⟩

/-- A comparison with a snapshot fails where the look at the file saw something else. -/
theorem run_assertUnchanged {site : Site} {path : PosixPath} {expected : Snapshot} {maximum : Nat}
    {name : String} {read : Result Snapshot} {s' : Moment}
    (h : run o.env (readSnapshot codec.digestBytes site path maximum name) s = some (read, s')) :
    (read = .ok expected → run o.env (assertUnchanged codec.digestBytes site path expected maximum
        name) s = some (.ok (), s'))
      ∧ (read ≠ .ok expected → ∃ x, run o.env (assertUnchanged codec.digestBytes site path expected
        maximum name) s = some (.error x, s')
          ∧ ∀ snapshot, read = .ok snapshot → x = .concurrentEdit) := by
  unfold assertUnchanged
  cases read with
  | error x =>
    refine ⟨fun h => (nomatch h), fun _ => ⟨x, run_bind_error h, fun _ h => (nomatch h)⟩⟩
  | ok snapshot =>
    rw [run_bind_ok h]
    constructor
    · intro heq
      cases heq
      simp [failIf, rejectIf, Prog.ofExcept, run]
    · intro hne
      have hdiffer : snapshot ≠ expected := fun heq => hne (congrArg _ heq)
      refine ⟨.concurrentEdit, ?_, fun _ _ => rfl⟩
      simp [failIf, rejectIf, Prog.ofExcept, run, hdiffer]

theorem acquireLock_returns {site : Site} {target lock : PosixPath}
    (h : target.withSuffix ".kaleidoscope-lock".toList = some lock) :
    Returns (fun path => path = lock) (acquireLock site target) := by
  unfold acquireLock
  rw [siblingPath_of h]
  refine returns_bind fun _ => ?_
  show Returns (fun path => path = lock) (inspectLock site lock >>= fun _ => _)
  refine returns_bind fun _ => returns_bind fun _ => returns_bind fun _ => ?_
  exact returns_bind fun _ => rfl

/-- An apply that fails under the lock before it touches either file is refused. -/
theorem refused_of_locked {lock : PosixPath} {s₁ s₂ : Moment} {x : ManagerError}
    {read : Result Snapshot} (hs : Apart suffix)
    (hlock : run o.env (acquireLock .lock plan.target) s = some (.ok lock, s₁))
    (hlocked : run o.env (applyLocked codec traits plan) s₁ = some (.error x, s₂))
    (hcalls : ∀ call ∈ calls o.env (applyLocked codec traits plan) s₁, Untouched plan call.2)
    (hx : ∀ snapshot, read = .ok snapshot → x = .concurrentEdit) :
    Refused plan o (applyPlan codec traits plan) s read := by
  obtain ⟨name, hbeside⟩ := exists_lock plan
  obtain ⟨htarget_ne, hreceipt_ne, _⟩ := lock_ne hs hbeside
  have hnot_target := @not_mem_ancestors _ _ _ plan plan.target rfl
  have hnot_receipt := @not_mem_ancestors _ _ _ plan _
    (PosixPath.length_withSuffix plan.receiptPath.beside)
  have hacquire : Only (Within .lock fun q => q ∈ plan.target.ancestors ∨ q = name)
      (acquireLock .lock plan.target) := by
    refine acquireLock_within (fun q hq => .inl hq) fun q hq => ?_
    rw [hbeside] at hq
    cases hq
    exact .inr rfl
  have hname := returns_run (@acquireLock_returns .lock _ _ hbeside) hlock
  have hrelease : Only (Within .release fun q => q = name) (releaseLock .release lock) := by
    refine ignore_within fun q hq => ?_
    cases hq
    exact hname
  obtain ⟨⟨res, s₃, hfree⟩, _⟩ := run_of_only hrelease s₂
  constructor
  · refine ⟨x, s₃, ?_, hx⟩
    unfold applyPlan
    rw [run_bind_ok hlock]
    exact run_bind_error (run_ensuring hlocked hfree)
  · intro call hcall
    unfold applyPlan at hcall
    rcases mem_calls_bind hcall with hcall | ⟨lock', s', hrun, hcall⟩
    · exact untouched_of_within ((run_of_only hacquire s).2 call hcall)
        (not_or.mpr ⟨hnot_target, htarget_ne⟩) (not_or.mpr ⟨hnot_receipt, hreceipt_ne⟩)
    · rw [hlock] at hrun
      cases hrun
      rcases mem_calls_bind hcall with hcall | ⟨_, s', hrun, _⟩
      · rcases mem_calls_ensuring hcall with hcall | ⟨s', hcall⟩
        · exact hcalls call hcall
        · exact untouched_of_within ((run_of_only hrelease s').2 call hcall) htarget_ne hreceipt_ne
      · rw [run_ensuring hlocked hfree] at hrun
        cases hrun

theorem verifies (hs : Apart suffix) :
    Verifies codec traits plan o (applyPlan codec traits plan) s := by
  intro lock s₁ target s₂ hlock htarget
  have hlookTarget : Only (Within .checkTarget fun _ => False)
      (checkTarget codec traits plan .checkTarget plan.original) := assertUnchanged_within
  have hlookReceipt : Only (Within .checkReceipt fun _ => False)
      (assertUnchanged codec.digestBytes .checkReceipt plan.receiptPath.path plan.receiptOriginal
        maxReceiptBytes traits.receiptName) := assertUnchanged_within
  have huntouched : ∀ {site : Site} {p : FsProg Unit} {s' : Moment} {call : Moment × Step Site},
      Only (Within site fun _ => False) p → call ∈ calls o.env p s' → Untouched plan call.2 :=
    fun hp hcall => untouched_of_within ((run_of_only hp _).2 _ hcall) id id
  obtain ⟨hsame, hdiffer⟩ := @run_assertUnchanged _ codec o s₁ _ _ plan.original _ _ _ _ htarget
  constructor
  · intro hne
    obtain ⟨x, hrun, hx⟩ := hdiffer hne
    refine refused_of_locked hs hlock (run_bind_error hrun) ?_ hx
    intro call hcall
    rcases mem_calls_bind hcall with hcall | ⟨_, _, hrun', _⟩
    · exact huntouched hlookTarget hcall
    · unfold checkTarget at hrun'
      rw [hrun] at hrun'
      cases hrun'
  · intro receipt s₃ heq hreceipt hne
    have hrunTarget := hsame heq
    obtain ⟨x, hrun, hx⟩ := (@run_assertUnchanged _ codec o s₂ _ _ plan.receiptOriginal _ _ _ _
      hreceipt).2 hne
    have hlocked : run o.env (applyLocked codec traits plan) s₁ = some (.error x, s₃) := by
      unfold applyLocked checkTarget
      rw [run_bind_ok hrunTarget]
      exact run_bind_error hrun
    · refine refused_of_locked hs hlock hlocked ?_ hx
      intro call hcall
      rcases mem_calls_bind hcall with hcall | ⟨_, s', hrun', hcall⟩
      · exact huntouched hlookTarget hcall
      · unfold checkTarget at hrun'
        rw [hrunTarget] at hrun'
        cases hrun'
        rcases mem_calls_bind hcall with hcall | ⟨_, _, hrun', _⟩
        · exact huntouched hlookReceipt hcall
        · rw [hrun] at hrun'
          cases hrun'

theorem restoresOwn_runIf {isNoop : Bool} (hs : Apart suffix) :
    RestoresOwn traits plan o (runIf (isNoop = false) (applyPlan codec traits plan)) s := by
  unfold runIf
  split
  · exact restoresOwn hs
  · intro _ call hcall
    cases hcall

theorem verifies_runIf {isNoop : Bool} (hs : Apart suffix) (h : isNoop = false) :
    Verifies codec traits plan o (runIf (isNoop = false) (applyPlan codec traits plan)) s := by
  unfold runIf
  rw [if_pos h]
  exact verifies hs

end

/-- Whatever other writers do: a plan with something to do compares both files with its snapshots
under the lock, ends with the error of a concurrent edit where one differs, and touches neither;
and the target is put back only over what the apply wrote, as long as nobody else changed it since
the apply last looked at it. -/
theorem apply_respects_edits {Receipt : Type} (codec : ReceiptCodec Receipt) (o : Others)
    (s : Moment) :
    (∀ plan : ConnectionPlan Receipt,
      (plan.action.isNoop = false →
        Verifies codec connectionTraits plan o (ConnectionPlan.apply codec plan) s)
      ∧ RestoresOwn connectionTraits plan o (ConnectionPlan.apply codec plan) s)
    ∧ (∀ plan : InstructionPlan Receipt,
      (plan.action.isNoop = false →
        Verifies codec instructionTraits plan o (InstructionPlan.apply codec plan) s)
      ∧ RestoresOwn instructionTraits plan o (InstructionPlan.apply codec plan) s)
    ∧ ∀ plan : HookPlan Receipt,
      (plan.action.isNoop = false →
        Verifies codec hookTraits plan o (HookPlan.apply codec plan) s)
      ∧ RestoresOwn hookTraits plan o (HookPlan.apply codec plan) s := by
  have howner : Apart ".kaleidoscope-owner.json" := ⟨by decide, by decide, by decide⟩
  have hinstruction : Apart ".kaleidoscope-instruction-owner.json" :=
    ⟨by decide, by decide, by decide⟩
  refine ⟨fun plan => ⟨?_, ?_⟩, fun plan => ⟨?_, ?_⟩, fun plan => ⟨?_, ?_⟩⟩
  · exact verifies_runIf howner
  · exact restoresOwn_runIf howner
  · exact verifies_runIf hinstruction
  · exact restoresOwn_runIf hinstruction
  · exact verifies_runIf howner
  · exact restoresOwn_runIf howner

/-! ## An edit that is lost, and one that is not -/

namespace EditSample

open ApplySample

def userBytes : Bytes := Text.asciiBytes "user".toList

/-- Somebody else writes the target before step `n`, and step `m` fails. -/
def others (n m : Nat) : Others :=
  { edit := fun k fs => if k = n then fs.set target (.file userBytes 0o644) else fs
    fails := fun k => k == m }

/-- A disk on which the file system itself fails nothing. -/
def start : Moment := (0, { drive with fault := none })

/-- What the check under the lock reads of the target. -/
def readUnderLock (o : Others) : Option (Option (Option Bytes)) :=
  (run o.env (acquireLock .lock target) start).bind fun acquired =>
    if acquired.1.isOk then
      (run o.env (lookTarget codec connectionTraits connectionPlan) acquired.2).map
        fun read => read.1.toOption.map Snapshot.bytes
    else none

theorem readUnderLock_eq {o : Others} {bytes : Option Bytes}
    (h : readUnderLock o = some (some bytes)) :
    ∃ lock s₁ snapshot s₂, run o.env (acquireLock .lock target) start = some (.ok lock, s₁)
      ∧ run o.env (lookTarget codec connectionTraits connectionPlan) s₁ = some (.ok snapshot, s₂)
      ∧ snapshot.bytes = bytes := by
  obtain ⟨⟨acquired, s₁⟩, hlock, h⟩ := Option.bind_eq_some_iff.mp h
  cases acquired with
  | error x => cases h
  | ok lock =>
    obtain ⟨⟨read, s₂⟩, hread, h⟩ := Option.map_eq_some_iff.mp h
    cases read with
    | error x => cases h
    | ok snapshot => exact ⟨lock, s₁, snapshot, s₂, hlock, hread, Option.some.inj h⟩

/-- The nodes that a run replaces when it puts the target back. -/
def replacedNodes (o : Others) (program : FsProg Unit) : List (Option Node) :=
  (calls o.env program start).filterMap fun call =>
    if call.2.site = .restore ∧ call.2.call.touches = some target then
      some ((o.found call.1).fs.get target)
    else none

end EditSample

section

open ApplySample EditSample

/-- An edit before the check stops the apply. -/
theorem apply_respects_edits_stop :
    ∃ s', run (others 5 100).env (ConnectionPlan.apply codec connectionPlan) start
      = some (.error .concurrentEdit, s') := by
  have hread : readUnderLock (others 5 100) = some (some (some userBytes)) := by decide +kernel
  obtain ⟨lock, s₁, snapshot, s₂, hlock, hlook, hbytes⟩ := readUnderLock_eq hread
  have hne : (.ok snapshot : Result Snapshot) ≠ .ok connectionPlan.original := by
    intro h
    rw [Except.ok.inj h] at hbytes
    cases hbytes
  have hall := (apply_respects_edits codec (others 5 100) start).1 connectionPlan
  obtain ⟨⟨x, s', hrun, hx⟩, _⟩ := (hall.1 rfl lock s₁ (.ok snapshot) s₂ hlock hlook).1 hne
  rw [hx snapshot rfl] at hrun
  exact ⟨s', hrun⟩

/-- A hook plan removes the file that somebody else wrote in the meantime. -/
theorem hook_restore_loses_edit :
    ∃ call ∈ calls (others 15 21).env (HookPlan.apply codec hookPlan) start,
      ¬ReplacesOwn hookPlan (others 15 21) call.1 call.2 := by
  have hnodes : replacedNodes (others 15 21) (HookPlan.apply codec hookPlan)
      = [some (.file userBytes 0o644)] := by
    decide +kernel
  have hmem : some (.file userBytes 0o644)
      ∈ replacedNodes (others 15 21) (HookPlan.apply codec hookPlan) := by
    rw [hnodes]
    exact List.mem_singleton.mpr rfl
  obtain ⟨call, hcall, hnode⟩ := List.mem_filterMap.mp hmem
  refine ⟨call, hcall, fun hown => ?_⟩
  split at hnode
  next hreplaces =>
    obtain ⟨mode, hmode⟩ := hown hreplaces
    have hfound : ((others 15 21).found call.1).fs.get target
        = some (.file userBytes 0o644) := Option.some.inj hnode
    have hwritten : ((others 15 21).found call.1).fs.get target
        = some (.file (Text.asciiBytes "new".toList) mode) := hmode
    rw [hfound] at hwritten
    revert hwritten
    simp only [Option.some.injEq, Node.file.injEq]
    have hbytes : userBytes ≠ Text.asciiBytes "new".toList := by decide
    exact fun h => absurd h.1 hbytes
  next => cases hnode

end

end Kaleidoscope
