import Kaleidoscope.HookInstall

/-!
# Pruning

An apply makes the directories above its target.  The teardown of a later run removes them again,
innermost first, as long as they bear a name that a planner can make and hold nothing: it cannot
know which of them it made.

    applyPlan_leaves    the tree that an apply leaves before it prunes
    prune_exactly       a teardown prunes what the install made, and nothing else, exactly where
                        the directories that it empties are those that the install made
-/

namespace Kaleidoscope.Prune

open Prog Disk

/-! ## Runs that end well -/

/-- What holds of the tree after a run that ends with a value and in which no call failed. -/
def Ends {α : Type} (P : α → Fs → Prop) (p : FsProg α) (d : Drive Site) : Prop :=
  ∀ a d', run Drive.answer p d = some (.ok a, d') → d'.failed = none → P a d'.fs

section

variable {α β : Type} {site : Site} {d : Drive Site} {P P' : α → Fs → Prop} {Q : β → Fs → Prop}

/-- A call that failed stays known. -/
theorem run_failed {p : FsProg α} {d d' : Drive Site} {r : Result α}
    (h : run Drive.answer p d = some (r, d')) (hfailed : d'.failed = none) : d.failed = none := by
  induction p generalizing d with
  | done result =>
    cases h
    exact hfailed
  | spent => cases h
  | step e k ih =>
    have hnext := ih _ h
    unfold Drive.answer at hnext
    split at hnext
    · cases hnext
    · rwa [(perform_frame d e.call).1] at hnext

theorem ends_mono {p : FsProg α} (h : Ends P p d) (himp : ∀ a fs, P a fs → P' a fs) :
    Ends P' p d :=
  fun a d' hrun hfailed => himp a d'.fs (h a d' hrun hfailed)

theorem ends_and {p : FsProg α} (h : Ends P p d) (h' : Ends P' p d) :
    Ends (fun a fs => P a fs ∧ P' a fs) p d :=
  fun a d' hrun hfailed => ⟨h a d' hrun hfailed, h' a d' hrun hfailed⟩

theorem ends_any {p : FsProg α} : Ends (fun _ _ => True) p d := fun _ _ _ _ => trivial

theorem ends_bind {p : FsProg α} {f : α → FsProg β} (hp : Ends P p d)
    (hf : ∀ a d₁, P a d₁.fs → Ends Q (f a) d₁) : Ends Q (p >>= f) d := by
  intro b d' hrun hfailed
  rcases run_bind_cases hrun with ⟨x, -, hx⟩ | ⟨a, d₁, hp', hf'⟩
  · cases hx
  · exact hf a d₁ (hp a d₁ hp' (run_failed hf' hfailed)) b d' hf' hfailed

theorem ends_pure {a : α} (h : P a d.fs) : Ends P (pure a) d := by
  intro b d' hrun _
  cases hrun
  exact h

theorem ends_fail {x : ManagerError} : Ends P (fail x) d := by
  intro b d' hrun
  cases hrun

/-- A program that ends with an error has no value. -/
theorem ends_bind_fail {p : FsProg β} {x : ManagerError} : Ends P (p >>= fun _ => fail x) d :=
  ends_bind ends_any fun _ _ _ => ends_fail

theorem ends_ofExcept {r : Result α} (h : ∀ a, r = .ok a → P a d.fs) : Ends P (ofExcept r) d := by
  intro b d' hrun _
  cases hrun
  exact h b rfl

theorem ends_failIf {c : Prop} [Decidable c] {x : ManagerError} {P : Unit → Fs → Prop}
    (h : ¬c → P () d.fs) : Ends P (failIf c x) d :=
  ends_ofExcept fun _ hr => h (rejectIf_eq_ok.mp hr)

theorem ends_runIf {c : Prop} [Decidable c] {p : FsProg Unit} {P : Unit → Fs → Prop}
    (hp : c → Ends P p d) (hskip : ¬c → P () d.fs) : Ends P (runIf c p) d := by
  unfold runIf
  split
  next h => exact hp h
  next h => exact ends_pure (hskip h)

theorem ends_attempt_bind {p : FsProg α} {f : Result α → FsProg β} (hp : Ends P p d)
    (hok : ∀ a d₁, P a d₁.fs → Ends Q (f (.ok a)) d₁)
    (herr : ∀ x d₁, Ends Q (f (.error x)) d₁) : Ends Q (attempt p >>= f) d := by
  intro b d' hrun hfailed
  rcases run_bind_cases hrun with ⟨x, -, hx⟩ | ⟨r, d₁, hp', hf'⟩
  · cases hx
  · obtain ⟨result, hr, hresult⟩ := run_attempt_cases hp'
    obtain rfl : r = result := Except.ok.inj hr
    cases r with
    | ok a => exact hok a d₁ (hp a d₁ hresult (run_failed hf' hfailed)) b d' hf' hfailed
    | error x => exact herr x d₁ b d' hf' hfailed

theorem ends_ensuring {γ : Type} {p : FsProg α} {cleanup : FsProg γ} (hp : Ends P p d)
    (hc : ∀ a d₁, P a d₁.fs → ∀ d₂ r, run Drive.answer cleanup d₁ = some (r, d₂) →
      d₂.failed = none → P' a d₂.fs) : Ends P' (ensuring p cleanup) d := by
  refine ends_attempt_bind hp (fun a d₁ h => ?_) fun x d₁ => ?_
  · intro b d' hrun hfailed
    rcases run_bind_cases hrun with ⟨x, -, hx⟩ | ⟨r, d₂, hclean, hrest⟩
    · cases hx
    · obtain ⟨result, -, hresult⟩ := run_attempt_cases hclean
      cases hrest
      exact hc a d₁ h _ result hresult hfailed
  · exact ends_bind ends_any fun _ _ _ => ends_ofExcept fun _ hr => nomatch hr

/-! ## Calls -/

theorem ends_call {c : Call} :
    Ends (fun a fs => a = (d.perform c).1 ∧ fs = (d.perform c).2.fs) (call site c) d := by
  intro a d' hrun hfailed
  unfold call at hrun
  have hanswer : (Except.ok (d.answer ⟨site, c⟩).1, (d.answer ⟨site, c⟩).2)
      = ((.ok a, d') : Result (Except IoKind c.Value) × Drive Site) := Option.some.inj hrun
  unfold Drive.answer at hanswer
  split at hanswer
  · cases hanswer
    cases hfailed
  · cases hanswer
    exact ⟨rfl, rfl⟩

theorem ends_act {action : Action} {operation : String} :
    Ends (fun _ fs => ∃ w, d.act action = .ok w ∧ fs = w.fs) (act site action operation) d := by
  refine ends_bind ends_call fun a d₁ h => ?_
  obtain ⟨rfl, hfs⟩ := h
  cases hact : d.act action with
  | ok w =>
    simp only [Drive.perform, hact] at hfs ⊢
    exact ends_pure ⟨w, rfl, hfs⟩
  | error kind =>
    simp only [Drive.perform, hact]
    exact ends_fail

theorem ends_metadata {path : PosixPath} {operation : String} :
    Ends (fun found fs => fs = d.fs ∧ found = (d.fs.get path).map Node.metadata)
      (symlinkMetadata site path operation) d := by
  refine ends_bind ends_call fun a d₁ h => ?_
  obtain ⟨rfl, hfs⟩ := h
  cases hnode : d.fs.get path with
  | none =>
    rw [perform_metadata_none hnode] at hfs ⊢
    exact ends_pure ⟨hfs, rfl⟩
  | some node =>
    rw [perform_metadata_some hnode] at hfs ⊢
    exact ends_pure ⟨hfs, rfl⟩

/-- Paths that a program does not touch stay. -/
theorem ends_frame {touched : PosixPath → Prop} {p : FsProg α}
    (h : Only (Within site touched) p) :
    Ends (fun _ fs => ∀ q, ¬touched q → fs.get q = d.fs.get q) p d := by
  intro a d' hrun _
  obtain ⟨r, d'', hrun', hframe⟩ := frame_of_only h d
  rw [hrun] at hrun'
  cases hrun'
  exact hframe.same

/-! ## What the helpers leave -/

theorem act_untouched {action : Action} {w : Drive Site} (h : d.act action = .ok w)
    (ht : (Call.act action).touches = none) : w.fs = d.fs := by
  cases action <;> simp only [Call.touches, reduceCtorEq] at ht <;> simp only [Drive.act] at h <;>
    repeat' split at h
  all_goals first
    | (cases h; done)
    | (cases h; rfl)

theorem perform_untouched {c : Call} (ht : c.touches = none) : (d.perform c).2.fs = d.fs := by
  cases c with
  | act action =>
    cases hact : d.act action with
    | ok w =>
      simp only [Drive.perform, hact]
      exact act_untouched hact ht
    | error kind => simp only [Drive.perform, hact]
  | _ =>
    simp only [Drive.perform]
    split <;> rfl

/-- A program that touches nothing leaves the tree as it is. -/
theorem ends_quiet {p : FsProg α} (h : Only (Within site fun _ => False) p) :
    Ends (fun _ fs => fs = d.fs) p d := by
  intro a d' hrun _
  have hstep : ∀ (d : Drive Site) (step : Step Site), Within site (fun _ => False) step →
      (d.answer step).2.fs = d.fs := by
    intro d step hwithin
    unfold Drive.answer
    split
    · rfl
    · refine perform_untouched (Option.eq_none_iff_forall_ne_some.mpr fun q hq => ?_)
      exact hwithin.2 q hq
  obtain ⟨r, d'', hrun', hfs⟩ := yields_of_only (F := fun d d' : Drive Site => d'.fs = d.fs) (fun _ => rfl)
    (fun _ _ _ h₁ h₂ => h₂.trans h₁) hstep h d
  rw [hrun] at hrun'
  cases hrun'
  exact hfs

theorem ends_look {path : PosixPath} :
    Ends (fun _ fs => fs = d.fs) (call site (.metadata path)) d :=
  ends_quiet (call_within fun _ h => nomatch h)

theorem ends_const {p : FsProg α} {c : Prop} (h : c) : Ends (fun _ _ => c) p d := fun _ _ _ _ => h

theorem ends_act_untouched {action : Action} {operation : String}
    (ht : (Call.act action).touches = none) :
    Ends (fun _ fs => fs = d.fs) (act site action operation) d :=
  ends_quiet (act_within fun q hq => by rw [ht] at hq; cases hq)

/-- The snapshot of a path is not that of a directory. -/
theorem assertUnchanged_ends {digestBytes : Bytes → Text} {path : PosixPath} {expected : Snapshot}
    {maximum : Nat} {target : String} :
    Ends (fun _ fs => fs = d.fs ∧ d.fs.get path ≠ some .directory)
      (assertUnchanged digestBytes site path expected maximum target) d := by
  refine ends_and (ends_quiet assertUnchanged_within)
    (ends_bind (P := fun _ _ => d.fs.get path ≠ some .directory) ?_ fun _ _ h => ends_const h)
  refine ends_bind (@ends_quiet _ site _ _ trivial) fun _ d₁ h₁ => ?_
  refine ends_bind ends_metadata fun found d₂ h₂ => ?_
  rw [h₁] at h₂
  obtain ⟨-, rfl⟩ := h₂
  cases hnode : d.fs.get path with
  | none => exact ends_const nofun
  | some node =>
    refine ends_bind ends_any fun _ d₃ _ => ?_
    refine ends_bind (ends_failIf (P := fun _ _ =>
      ¬(node.metadata.type ≠ .file ∨ node.metadata.len > maximum)) id) fun _ d₄ htype =>
      ends_const ?_
    rintro hdir
    cases hdir
    exact htype (.inl (by simp [Node.metadata]))

/-! ## Directories and the lock -/

/-- The directories are there; nothing else changed. -/
def Ensures (cursors : List PosixPath) (fs fs' : Fs) : Prop :=
  ∀ q, fs'.get q = if q ∈ cursors then some .directory else fs.get q

theorem ensureDirectory_ends {cursor : PosixPath} :
    Ends (fun _ fs => Ensures [cursor] d.fs fs) (ensureDirectory site cursor) d := by
  have hthere : d.fs.get cursor = some .directory → Ensures [cursor] d.fs d.fs := by
    intro hdir q
    by_cases hq : q = cursor
    · simp [hq, hdir]
    · simp [hq]
  refine ends_bind ends_metadata fun found d₁ h₁ => ?_
  obtain ⟨hfs, rfl⟩ := h₁
  cases hnode : d.fs.get cursor with
  | some node =>
    refine ends_bind (@ends_quiet _ site _ _ trivial) fun _ d₂ h₂ => ?_
    refine ends_failIf fun htype => ?_
    rw [h₂, hfs]
    refine hthere (hnode.trans ?_)
    cases node <;> simp [Node.metadata] at htype ⊢
  | none =>
    refine ends_bind ends_call fun answer d₂ h₂ => ?_
    obtain ⟨rfl, hfs₂⟩ := h₂
    cases hact : d₁.act (.createDirectory cursor) with
    | ok w =>
      simp only [Drive.perform, hact] at hfs₂ ⊢
      refine ends_mono (ends_act_untouched rfl) fun _ fs h q => ?_
      have hw : w.fs = d.fs.set cursor .directory := by
        simp only [Drive.act, hfs, hnode, Option.isSome_none, Bool.false_eq_true, if_false] at hact
        split at hact
        · cases hact
          rfl
        · cases hact
      rw [h, hfs₂, hw, Fs.get_set]
      simp only [List.mem_singleton]
    | error kind =>
      have hkind : kind ≠ .alreadyExists := by
        rintro rfl
        simp only [Drive.act, hfs, hnode, Option.isSome_none, Bool.false_eq_true, if_false] at hact
        split at hact <;> cases hact
      simp only [Drive.perform, hact]
      cases kind with
      | alreadyExists => exact absurd rfl hkind
      | _ => exact ends_fail

theorem ensureDirectories_ends (cursors : List PosixPath) (d : Drive Site) :
    Ends (fun _ fs => Ensures cursors d.fs fs) (ensureDirectories site cursors) d := by
  induction cursors generalizing d with
  | nil => exact ends_pure fun q => rfl
  | cons cursor rest ih =>
    refine ends_bind ensureDirectory_ends fun _ d₁ h₁ => ?_
    refine ends_mono (ih d₁) fun _ fs h q => ?_
    rw [h q, h₁ q]
    by_cases hrest : q ∈ rest
    · simp [hrest]
    · by_cases hq : q = cursor <;> simp [hrest, hq]

theorem ensureParentDirectory_ends {path : PosixPath} :
    Ends (fun _ fs => Ensures path.ancestors d.fs fs) (ensureParentDirectory site path) d := by
  refine ends_bind (@ends_quiet _ site _ _ trivial) fun _ d₁ h₁ => ?_
  refine ends_bind (@ends_quiet _ site _ _ trivial) fun _ d₂ h₂ => ?_
  refine ends_mono (ensureDirectories_ends _ d₂) fun _ fs h => ?_
  rwa [h₂, h₁] at h

/-- The tree while the lock is held. -/
structure Locked (target lock : PosixPath) (fs fs' : Fs) : Prop where
  beside : target.withSuffix ".kaleidoscope-lock".toList = some lock
  free : fs.get lock = none
  held : ∃ bytes mode, fs'.get lock = some (.file bytes mode)
  directories : ∀ q ∈ target.ancestors, fs'.get q = some .directory
  same : ∀ q, q ∉ target.ancestors → q ≠ lock → fs'.get q = fs.get q

theorem acquireLock_ends {target : PosixPath} :
    Ends (fun lock fs => Locked target lock d.fs fs) (acquireLock site target) d := by
  refine ends_bind ensureParentDirectory_ends fun _ d₁ h₁ => ?_
  refine ends_bind (ends_ofExcept (P := fun _ fs => fs = d₁.fs) fun _ _ => rfl)
    fun lock d₂ h₂ => ?_
  have hlock : lock.path ∉ target.ancestors := by
    intro hmem
    have hlt := PosixPath.length_lt_of_mem_ancestors hmem
    have hlen := PosixPath.length_withSuffix lock.beside
    omega
  have hfree : Ends (fun _ fs => fs = d₂.fs ∧ d₂.fs.get lock.path = none)
      (inspectLock site lock.path) d₂ := by
    refine ends_bind ends_metadata fun found d₃ h₃ => ?_
    obtain ⟨hfs, rfl⟩ := h₃
    cases hnode : d₂.fs.get lock.path with
    | none => exact ends_pure ⟨hfs, rfl⟩
    | some node => exact ends_fail
  refine ends_bind hfree fun _ d₃ h₃ => ?_
  obtain ⟨hfs₃, hnone⟩ := h₃
  -- the file of the lock, which the two calls after its creation keep
  let Held (fs : Fs) : Prop := (∃ bytes mode, fs.get lock.path = some (.file bytes mode))
    ∧ ∀ q, q ≠ lock.path → fs.get q = d₁.fs.get q
  have hcreated : Ends (fun _ fs => Held fs)
      (act site (.createFile lock.path 0o600) "create lock") d₃ := by
    refine ends_mono ends_act fun _ fs hended => ?_
    obtain ⟨w, hact, hfs⟩ := hended
    have hw : w.fs = d₃.fs.set lock.path (.file ByteArray.empty 0o600) := by
      simp only [Drive.act] at hact
      split at hact
      · cases hact
      · split at hact <;> cases hact
        rfl
    rw [hfs, hw, hfs₃, h₂]
    exact ⟨⟨_, _, by rw [Fs.get_set, if_pos rfl]⟩, fun q hq => by simp [Fs.get_set, hq]⟩
  refine ends_bind hcreated fun _ d₄ h₄ => ?_
  have hwritten : Ends (fun _ fs => Held fs)
      (act site (.writeProcessId lock.path) "write lock") d₄ := by
    refine ends_mono ends_act fun _ fs hended => ?_
    obtain ⟨w, hact, hfs⟩ := hended
    simp only [Drive.act] at hact
    split at hact
    · cases hact
      rw [hfs]
      exact ⟨⟨_, _, by rw [Fs.get_set, if_pos rfl]⟩,
        fun q hq => by simp [Fs.get_set, hq, h₄.2 q hq]⟩
    · cases hact
  refine ends_bind hwritten fun _ d₅ h₅ => ?_
  refine ends_bind (ends_act_untouched rfl) fun _ d₆ h₆ => ends_pure ?_
  rw [h₆]
  refine ⟨lock.beside, ?_, h₅.1, fun q hq => ?_, fun q hq hne => ?_⟩
  · rw [← hnone, h₂, h₁ lock.path, if_neg hlock]
  · rw [h₅.2 q (fun h => hlock (h ▸ hq)), h₁ q, if_pos hq]
  · rw [h₅.2 q hne, h₁ q, if_neg hq]

/-! ## Changes of one path -/

/-- How a change of one path ends: no directory comes or goes, and the other paths stay. -/
structure Changes (path : PosixPath) (present : Prop) (fs fs' : Fs) : Prop where
  directory : ∀ q, fs'.get q = some .directory ↔ fs.get q = some .directory
  present : (fs'.get path).isSome = true ↔ present
  same : ∀ q, q ≠ path → fs'.get q = fs.get q

theorem Changes.refl (path : PosixPath) (fs : Fs) :
    Changes path ((fs.get path).isSome = true) fs fs :=
  ⟨fun _ => Iff.rfl, Iff.rfl, fun _ _ => rfl⟩

theorem changes_of_ne {path : PosixPath} {present : Prop} {fs fs' : Fs}
    (hwas : fs.get path ≠ some .directory) (his : fs'.get path ≠ some .directory)
    (hpresent : (fs'.get path).isSome = true ↔ present)
    (hsame : ∀ q, q ≠ path → fs'.get q = fs.get q) : Changes path present fs fs' := by
  refine ⟨fun q => ?_, hpresent, hsame⟩
  by_cases hq : q = path
  · rw [hq]
    exact ⟨fun h => absurd h his, fun h => absurd h hwas⟩
  · rw [hsame q hq]

theorem replaceFile_ends {path : PosixPath} {bytes : Bytes} {unixMode : Option Nat} :
    Ends (fun _ fs => Changes path True d.fs fs) (replaceFile site path bytes unixMode) d := by
  refine ends_bind ends_look fun found d₁ h₁ => ?_
  refine ends_bind (@ends_quiet _ site _ _ trivial) fun _ d₂ h₂ => ?_
  refine ends_bind (ends_act_untouched rfl) fun _ d₃ h₃ => ?_
  have hfs : d₃.fs = d.fs := by rw [h₃, h₂, h₁]
  have hmode : Only (Within site fun _ => False) (setTemporaryMode site path unixMode) := by
    cases unixMode with
    | none => trivial
    | some mode => exact act_within fun _ ht => nomatch ht
  have hpublish : Ends (fun _ fs => Changes path True d.fs fs)
      (publishTemporary site path bytes unixMode) d₃ := by
    refine ends_bind (ends_quiet hmode) fun _ d₄ h₄ => ?_
    refine ends_bind (ends_act_untouched rfl) fun _ d₅ h₅ => ?_
    refine ends_bind (ends_act_untouched rfl) fun _ d₆ h₆ => ?_
    have hfs' : d₆.fs = d.fs := by rw [h₆, h₅, h₄, hfs]
    refine ends_bind ends_act fun _ d₇ h₇ => ?_
    obtain ⟨w, hact, hw⟩ := h₇
    refine ends_mono (ends_quiet syncParent_within) fun _ fs h => ?_
    rw [h, hw]
    simp only [Drive.act, hfs'] at hact
    split at hact
    · cases hact
    · cases hact
    next hne =>
      cases hact
      refine changes_of_ne hne ?_ ?_ fun q hq => ?_
      · simp [Fs.get_set]
      · simp [Fs.get_set]
      · simp [Fs.get_set, hq]
  exact ends_attempt_bind hpublish (fun _ _ h => ends_pure h) fun _ _ => ends_bind_fail

theorem atomicWrite_ends {path : PosixPath} {bytes : Bytes} {unixMode : Option Nat}
    (hdirs : ∀ q ∈ path.ancestors, d.fs.get q = some .directory) :
    Ends (fun _ fs => Changes path True d.fs fs) (atomicWrite site path bytes unixMode) d := by
  refine ends_bind ensureParentDirectory_ends fun _ d₁ h₁ => ?_
  have hget : ∀ q, d₁.fs.get q = d.fs.get q := by
    intro q
    rw [h₁ q]
    split
    next hq => exact (hdirs q hq).symm
    next => rfl
  refine ends_mono replaceFile_ends fun _ fs h => ⟨fun q => ?_, h.present, fun q hq => ?_⟩
  · rw [h.directory q, hget]
  · rw [h.same q hq, hget]

theorem atomicRemove_ends {path : PosixPath} :
    Ends (fun _ fs => Changes path False d.fs fs) (atomicRemove site path) d := by
  refine ends_bind ends_metadata fun found d₁ h₁ => ?_
  obtain ⟨hfs, rfl⟩ := h₁
  cases hnode : d.fs.get path with
  | none =>
    refine ends_pure ?_
    rw [hfs]
    refine changes_of_ne ?_ ?_ ?_ fun _ _ => rfl <;> simp [hnode]
  | some node =>
    refine ends_bind (ends_failIf (P := fun _ fs => fs = d.fs ∧ node ≠ .directory) fun htype =>
      ⟨hfs, ?_⟩) fun _ d₂ h₂ => ?_
    · rintro rfl
      exact htype (by simp [Node.metadata])
    refine ends_bind ends_act fun _ d₃ h₃ => ?_
    obtain ⟨w, hact, hw⟩ := h₃
    refine ends_mono (ends_quiet syncParent_within) fun _ fs h => ?_
    have hremoved : w.fs = d.fs.remove path := by
      simp only [Drive.act, h₂.1, hnode] at hact
      split at hact
      · cases hact
      · cases hact
      · cases hact
        rfl
    rw [h, hw, hremoved]
    refine changes_of_ne ?_ ?_ ?_ fun q hq => ?_
    · rw [hnode]
      exact fun hdir => h₂.2 (Option.some.inj hdir)
    · simp [Fs.get_remove]
    · simp [Fs.get_remove]
    · simp [Fs.get_remove, hq]

end

/-! ## The tree that an apply leaves before it prunes -/

section

variable {Action Receipt : Type} {suffix : String} {codec : ReceiptCodec Receipt}
  {traits : Traits} {plan : Plan Action Receipt suffix} {site : Site} {d : Drive Site}

/-- Whether the plan leaves an entry at a path that is not a directory above the target. -/
def leavesEntry (plan : Plan Action Receipt suffix) (fs : Fs) (q : PosixPath) : Bool :=
  if q = plan.target then (written plan (fs.get q)).isSome
  else if q = plan.receiptPath.path then plan.receiptAfter.isSome
  else if q = plan.backupPath.path then (backupAfter plan (fs.get q)).isSome
  else (fs.get q).isSome

/-- The entries of a tree that an apply left, before it pruned. -/
structure Left (plan : Plan Action Receipt suffix) (fs fs' : Fs) : Prop where
  directory : ∀ q, fs'.get q = some .directory
    ↔ q ∈ plan.target.ancestors ∨ fs.get q = some .directory
  present : ∀ q, (fs'.get q).isSome = true
    ↔ q ∈ plan.target.ancestors ∨ leavesEntry plan fs q = true

/-- The backup that is there before the backup may be dropped. -/
def savedBackup (plan : Plan Action Receipt suffix) (node : Option Node) : Option Node :=
  if plan.restore.isNone ∧ plan.write.isLeave = false then
    match plan.original.bytes with
    | some bytes => some (.file bytes 0o600)
    | none => node
  else node

theorem backupAfter_eq (node : Option Node) :
    backupAfter plan node = if plan.removeBackup then none else savedBackup plan node := by
  unfold backupAfter savedBackup
  cases plan.original.bytes <;> rfl

theorem saveBackup_ends (hdirs : ∀ q ∈ plan.target.ancestors, d.fs.get q = some .directory) :
    Ends (fun _ fs => Changes plan.backupPath.path
      ((savedBackup plan (d.fs.get plan.backupPath.path)).isSome = true) d.fs fs)
      (saveBackup plan) d := by
  unfold savedBackup
  refine ends_runIf (fun hsave => ?_) fun hkept => ?_
  · rw [if_pos hsave]
    unfold writeBoundedBackup
    cases plan.original.bytes with
    | none => exact ends_pure (Changes.refl _ _)
    | some bytes =>
      rw [siblingPath_of plan.backupPath.beside]
      show Ends _ ((atomicWrite .backup plan.backupPath.path bytes (some 0o600) >>= fun _ =>
        pure (some plan.backupPath.path)) >>= fun _ => pure ()) d
      have hwrite : Ends (fun _ fs => Changes plan.backupPath.path True d.fs fs)
          (atomicWrite .backup plan.backupPath.path bytes (some 0o600)) d := by
        refine atomicWrite_ends fun q hq => hdirs q ?_
        rwa [PosixPath.ancestors_withSuffix plan.backupPath.beside] at hq
      exact ends_bind (ends_bind hwrite fun _ _ h => ends_pure h) fun _ _ h =>
        ends_pure (by simpa using h)
  · rw [if_neg hkept]
    exact Changes.refl _ _

theorem writeTarget_ends (hdirs : ∀ q ∈ plan.target.ancestors, d.fs.get q = some .directory) :
    Ends (fun _ fs => Changes plan.target
      ((written plan (d.fs.get plan.target)).isSome = true) d.fs fs) (writeTarget plan) d := by
  unfold writeTarget written
  cases plan.write with
  | write bytes => simpa using atomicWrite_ends hdirs
  | remove => simpa using atomicRemove_ends
  | leave => exact ends_pure (Changes.refl _ _)

theorem writeReceipt_ends {bytes : Option Bytes}
    (hdirs : ∀ q ∈ plan.target.ancestors, d.fs.get q = some .directory) :
    Ends (fun _ fs => Changes plan.receiptPath.path (bytes.isSome = true) d.fs fs)
      (writeReceipt plan bytes) d := by
  unfold writeReceipt
  cases bytes with
  | some bytes =>
    simp only [Option.isSome_some]
    refine atomicWrite_ends fun q hq => hdirs q ?_
    rwa [PosixPath.ancestors_withSuffix plan.receiptPath.beside] at hq
  | none => simpa using atomicRemove_ends

theorem dropBackup_ends :
    Ends (fun _ fs => Changes plan.backupPath.path
      (plan.removeBackup = false ∧ (d.fs.get plan.backupPath.path).isSome = true) d.fs fs)
      (dropBackup plan) d := by
  refine ends_runIf (fun hdrop => ?_) fun hkept => ?_
  · simpa [hdrop] using atomicRemove_ends
  · simpa [hkept] using Changes.refl plan.backupPath.path d.fs

theorem encodedReceipt_isSome {bytes : Option Bytes} (h : encodedReceipt codec plan = .ok bytes) :
    bytes.isSome = plan.receiptAfter.isSome := by
  unfold encodedReceipt at h
  cases hafter : plan.receiptAfter with
  | none =>
    rw [hafter] at h
    cases h
    rfl
  | some receipt =>
    rw [hafter] at h
    obtain ⟨encoded, -, hbytes⟩ := except_bind_eq_ok.mp h
    cases hbytes
    rfl

/-- The three files as the plan changes them, in a tree with the directories above them. -/
theorem applyLocked_ends (hs : Apart suffix)
    (hdirs : ∀ q ∈ plan.target.ancestors, d.fs.get q = some .directory) :
    Ends (fun _ fs => (∀ q, fs.get q = some .directory ↔ d.fs.get q = some .directory)
      ∧ ∀ q, (fs.get q).isSome = true ↔ leavesEntry plan d.fs q = true)
      (applyLocked codec traits plan) d := by
  refine ends_bind assertUnchanged_ends fun _ d₁ h₁ => ?_
  refine ends_bind assertUnchanged_ends fun _ d₂ h₂ => ?_
  have hfs : d₂.fs = d.fs := h₂.1.trans h₁.1
  have hdirs₂ : ∀ q ∈ plan.target.ancestors, d₂.fs.get q = some .directory := by
    rw [hfs]
    exact hdirs
  refine ends_bind (saveBackup_ends hdirs₂) fun _ d₃ h₃ => ?_
  rw [hfs] at h₃
  have hdirs₃ : ∀ q ∈ plan.target.ancestors, d₃.fs.get q = some .directory :=
    fun q hq => (h₃.directory q).mpr (hdirs q hq)
  refine ends_bind (writeTarget_ends hdirs₃) fun _ d₄ h₄ => ?_
  have hdirs₄ : ∀ q ∈ plan.target.ancestors, d₄.fs.get q = some .directory :=
    fun q hq => (h₄.directory q).mpr (hdirs₃ q hq)
  refine ends_bind (ends_ofExcept (P := fun bytes fs => fs = d₄.fs
    ∧ bytes.isSome = plan.receiptAfter.isSome) fun bytes h => ⟨rfl, encodedReceipt_isSome h⟩)
    fun bytes d₅ h₅ => ?_
  have hdirs₅ : ∀ q ∈ plan.target.ancestors, d₅.fs.get q = some .directory := by
    rw [h₅.1]
    exact hdirs₄
  refine ends_attempt_bind (writeReceipt_ends hdirs₅) (fun _ d₆ h₆ => ?_) fun _ _ => ends_bind_fail
  refine ends_mono dropBackup_ends fun _ fs h₇ => ⟨fun q => ?_, fun q => ?_⟩
  · rw [h₇.directory, h₆.directory, h₅.1, h₄.directory, h₃.directory]
  rw [h₅.1, h₅.2] at h₆
  have hreceipt_ne := @Plan.receipt_ne _ _ _ plan hs
  have hbackup_ne := @Plan.backup_ne _ _ _ plan
  have hapart := @Plan.receipt_ne_backup _ _ _ plan hs
  unfold leavesEntry
  by_cases htarget : q = plan.target
  · rw [if_pos htarget, htarget, h₇.same _ hbackup_ne.symm, h₆.same _ hreceipt_ne.symm,
      h₄.present, h₃.same _ hbackup_ne.symm]
  rw [if_neg htarget]
  by_cases hreceipt : q = plan.receiptPath.path
  · rw [if_pos hreceipt, hreceipt, h₇.same _ hapart, h₆.present]
  rw [if_neg hreceipt]
  by_cases hbackup : q = plan.backupPath.path
  · rw [if_pos hbackup, hbackup, h₇.present, h₆.same _ hapart.symm, h₄.same _ hbackup_ne,
      h₃.present, backupAfter_eq]
    cases plan.removeBackup <;> simp
  · rw [if_neg hbackup, h₇.same q hbackup, h₆.same q hreceipt, h₄.same q htarget, h₃.same q hbackup]

/-- Dropping the lock removes its file. -/
theorem releaseLock_run {lock : PosixPath} {d d' : Drive Site} {r : Result Unit}
    (h : run Drive.answer (releaseLock site lock) d = some (r, d')) (hfailed : d'.failed = none)
    (hfile : d.fs.get lock ≠ some .directory) :
    ∀ q, d'.fs.get q = if q = lock then none else d.fs.get q := by
  have hends : Ends (fun _ fs => fs = (d.perform (.act (.removeFile lock))).2.fs)
      (releaseLock site lock) d :=
    ends_bind ends_call fun _ _ h => ends_pure h.2
  rcases run_bind_cases h with ⟨x, hcall, -⟩ | ⟨a, d₁, hcall, hpure⟩
  · cases hcall
  · cases hpure
    intro q
    rw [hends () d' h hfailed]
    cases hnode : d.fs.get lock with
    | none =>
      simp only [Drive.perform, Drive.act, hnode]
      split
      next hq => rw [hq, hnode]
      next => rfl
    | some node =>
      have hact : d.act (.removeFile lock) = .ok { d with fs := d.fs.remove lock } := by
        simp only [Drive.act, hnode]
        split
        next heq => cases heq
        next heq => exact absurd (hnode.trans heq) hfile
        next => rfl
      simp only [Drive.perform, hact, Fs.get_remove]

/-- An apply without its pruning. -/
theorem applyPlan_leaves (hs : Apart suffix) :
    Ends (fun _ fs => Left plan d.fs fs) (do
      let lock ← acquireLock .lock plan.target
      ensuring (applyLocked codec traits plan) (releaseLock .release lock)) d := by
  refine ends_bind acquireLock_ends fun lock d₁ h₁ => ?_
  obtain ⟨htarget_ne, hreceipt_ne, hbackup_ne⟩ := lock_ne hs h₁.beside
  have hlock := @not_mem_ancestors _ _ _ plan _ (PosixPath.length_withSuffix h₁.beside)
  refine ends_ensuring (applyLocked_ends hs h₁.directories) fun _ d₂ h₂ d₃ r hrun hfailed => ?_
  obtain ⟨hdirectory, hpresent⟩ := h₂
  have hfile : d₂.fs.get lock ≠ some .directory := by
    obtain ⟨bytes, mode, hheld⟩ := h₁.held
    rw [Ne, hdirectory, hheld]
    nofun
  have hfree := releaseLock_run hrun hfailed hfile
  refine ⟨fun q => ?_, fun q => ?_⟩
  · rw [hfree q]
    by_cases hq : q = lock
    · rw [if_pos hq, hq, h₁.free]
      simp [hlock]
    · rw [if_neg hq, hdirectory]
      by_cases habove : q ∈ plan.target.ancestors
      · simp [h₁.directories q habove, habove]
      · simp [h₁.same q habove hq, habove]
  · rw [hfree q]
    by_cases hq : q = lock
    · subst hq
      simp [leavesEntry, hlock, htarget_ne.symm, hreceipt_ne.symm, hbackup_ne.symm, h₁.free]
    · rw [if_neg hq, hpresent]
      by_cases habove : q ∈ plan.target.ancestors
      · have hnot : ∀ path : PosixPath,
            path.components.length = plan.target.components.length → q ≠ path := by
          rintro path hlen rfl
          exact not_mem_ancestors hlen habove
        simp [leavesEntry, habove, h₁.directories q habove, hnot plan.target rfl,
          hnot _ (PosixPath.length_withSuffix plan.receiptPath.beside),
          hnot _ (PosixPath.length_withSuffix plan.backupPath.beside)]
      · simp [leavesEntry, habove, h₁.same q habove hq]

end

/-! ## What pruning removes -/

/-- The directory bears a managed name and holds nothing but a directory above the target. -/
structure Bare (present : PosixPath → Prop) (target dir : PosixPath) : Prop where
  managed : dir.fileName.getD [] ∈ managedDirectoryNames
  holds : ∀ q, q.parent = some dir → present q → q ∈ target.ancestors

/-- From the directory of the target out to this one, all are bare. -/
structure Hollow (present : PosixPath → Prop) (target dir : PosixPath) : Prop where
  above : dir ∈ target.ancestors
  bare : ∀ a ∈ target.ancestors, dir.components.length ≤ a.components.length →
    Bare present target a

/-- The hollow directories are gone; nothing else changed. -/
structure Pruned (target : PosixPath) (fs fs' : Fs) : Prop where
  gone : ∀ q, Hollow (fun p => (fs.get p).isSome = true) target q → fs'.get q = none
  same : ∀ q, ¬Hollow (fun p => (fs.get p).isSome = true) target q → fs'.get q = fs.get q

section

variable {target : PosixPath} {fs : Fs} {site : Site}

/-- What one turn of the loop does with a directory, where those below it are gone. -/
theorem bare_iff {dir : PosixPath} {rest done : List PosixPath} {fs' : Fs}
    (hchain : done ++ dir :: rest = target.ancestors.reverse)
    (hget : ∀ q, fs'.get q = if q ∈ done then none else fs.get q) :
    (dir.fileName.getD [] ∈ managedDirectoryNames ∧ fs'.hasChild dir = false)
      ↔ Bare (fun p => (fs.get p).isSome = true) target dir := by
  have hmem : ∀ q, q ∈ target.ancestors ↔ q ∈ done ∨ q = dir ∨ q ∈ rest := by
    intro q
    rw [← List.mem_reverse, ← hchain, List.mem_append, List.mem_cons]
  have hsorted := PosixPath.ancestors_reverse_sorted target
  rw [← hchain] at hsorted
  have hrest := (List.pairwise_cons.mp (List.pairwise_append.mp hsorted).2.1).1
  constructor
  · rintro ⟨hmanaged, hchild⟩
    refine ⟨hmanaged, fun q hparent hpresent => (hmem q).mpr (.inl ?_)⟩
    by_contra hq
    have hsome : fs'.hasChild dir = true := by
      refine Fs.hasChild_iff.mpr ⟨q, ?_, hparent⟩
      rwa [hget, if_neg hq]
    rw [hsome] at hchild
    cases hchild
  · intro h
    refine ⟨h.managed, Bool.eq_false_iff.mpr fun hchild => ?_⟩
    obtain ⟨q, hsome, hparent⟩ := Fs.hasChild_iff.mp hchild
    rw [hget] at hsome
    split at hsome
    next => cases hsome
    next hq =>
      -- an entry of the directory is a longer path than those that are still to come
      have hlen := PosixPath.length_parent hparent
      rcases (hmem q).mp (h.holds q hparent hsome) with hdone | rfl | hlater
      · exact hq hdone
      · omega
      · have := hrest q hlater
        omega

/-- Where the walk ends, what is gone is what is hollow. -/
theorem pruned_of_stop {rest done : List PosixPath} {fs' : Fs}
    (hchain : done ++ rest = target.ancestors.reverse)
    (hget : ∀ q, fs'.get q = if q ∈ done then none else fs.get q)
    (hbare : ∀ a ∈ done, Bare (fun p => (fs.get p).isSome = true) target a)
    (hstop : ∀ dir ∈ rest.head?, ¬Bare (fun p => (fs.get p).isSome = true) target dir) :
    Pruned target fs fs' := by
  have hmem : ∀ q, q ∈ target.ancestors ↔ q ∈ done ∨ q ∈ rest := by
    intro q
    rw [← List.mem_reverse, ← hchain, List.mem_append]
  have hsorted := PosixPath.ancestors_reverse_sorted target
  rw [← hchain] at hsorted
  obtain ⟨-, hrest, hbefore⟩ := List.pairwise_append.mp hsorted
  have hiff : ∀ q, Hollow (fun p => (fs.get p).isSome = true) target q ↔ q ∈ done := by
    intro q
    constructor
    · intro h
      rcases (hmem q).mp h.above with hq | hq
      · exact hq
      · cases rest with
        | nil => cases hq
        | cons dir rest =>
          refine absurd (h.bare dir ((hmem dir).mpr (.inr List.mem_cons_self)) ?_) (hstop dir rfl)
          rcases List.mem_cons.mp hq with rfl | hq
          · exact Nat.le_refl _
          · exact Nat.le_of_lt ((List.pairwise_cons.mp hrest).1 q hq)
    · intro hq
      refine ⟨(hmem q).mpr (.inl hq), fun a ha hlen => ?_⟩
      rcases (hmem a).mp ha with hdone | hlater
      · exact hbare a hdone
      · have := hbefore q hq a hlater
        omega
  refine ⟨fun q hq => ?_, fun q hq => ?_⟩
  · rw [hget, if_pos ((hiff q).mp hq)]
  · rw [hget, if_neg fun h => hq ((hiff q).mpr h)]

theorem pruneDirectories_ends (hdirs : ∀ a ∈ target.ancestors, fs.get a = some .directory)
    (rest done : List PosixPath) (d : Drive Site) (hchain : done ++ rest = target.ancestors.reverse)
    (hget : ∀ q, d.fs.get q = if q ∈ done then none else fs.get q)
    (hbare : ∀ a ∈ done, Bare (fun p => (fs.get p).isSome = true) target a) :
    Ends (fun _ fs' => Pruned target fs fs') (pruneDirectories site rest) d := by
  induction rest generalizing done d with
  | nil => exact ends_pure (pruned_of_stop hchain hget hbare fun _ h => nomatch h)
  | cons dir rest ih =>
    have hturn := @bare_iff target fs dir rest done d.fs hchain hget
    have hstop : ¬Bare (fun p => (fs.get p).isSome = true) target dir → Pruned target fs d.fs := by
      intro h
      refine pruned_of_stop hchain hget hbare fun a ha => ?_
      cases ha
      exact h
    unfold pruneDirectories
    by_cases hmanaged : dir.fileName.getD [] ∈ managedDirectoryNames
    swap
    · rw [if_pos hmanaged]
      exact ends_pure (hstop fun h => hmanaged h.managed)
    rw [if_neg (not_not.mpr hmanaged)]
    have hdir : d.fs.get dir = some .directory := by
      have hsorted := PosixPath.ancestors_reverse_sorted target
      rw [← hchain] at hsorted
      have hnot : dir ∉ done := fun h => by
        have := (List.pairwise_append.mp hsorted).2.2 dir h dir List.mem_cons_self
        omega
      rw [hget, if_neg hnot]
      refine hdirs dir ?_
      rw [← List.mem_reverse, ← hchain]
      exact List.mem_append_right _ List.mem_cons_self
    have hlist : d.perform (.listDirectory dir) = (.ok (d.fs.hasChild dir), d) := by
      simp [Drive.perform, Fs.isDirectory, hdir]
    refine ends_bind ends_call fun answer d₁ h₁ => ?_
    rw [hlist] at h₁
    obtain ⟨rfl, hfs₁⟩ := h₁
    cases hchild : d.fs.hasChild dir with
    | true =>
      refine ends_pure ?_
      rw [hfs₁]
      refine hstop fun h => ?_
      rw [(hturn.mpr h).2] at hchild
      cases hchild
    | false =>
      refine ends_bind ends_call fun answer d₂ h₂ => ?_
      have hremoved : d₁.perform (.act (.removeDirectory dir))
          = (.ok (), { d₁ with fs := d.fs.remove dir }) := by
        simp [Drive.perform, Drive.act, hfs₁, hdir, hchild]
      rw [hremoved] at h₂
      obtain ⟨rfl, hfs₂⟩ := h₂
      refine ih (done ++ [dir]) d₂ (by rw [List.append_assoc]; exact hchain) (fun q => ?_)
        fun a ha => ?_
      · rw [hfs₂, Fs.get_remove, hget]
        by_cases hq : q = dir <;> by_cases hdone : q ∈ done <;> simp [hq, hdone]
      · rcases List.mem_append.mp ha with ha | ha
        · exact hbare a ha
        · rw [List.mem_singleton.mp ha]
          exact hturn.mp ⟨hmanaged, hchild⟩

end

/-! ## A whole apply -/

section

variable {Action Receipt : Type} {suffix : String} {codec : ReceiptCodec Receipt}
  {traits : Traits} {plan : Plan Action Receipt suffix} {d : Drive Site}

/-- An entry that is there before the plan's apply prunes. -/
def Remains (plan : Plan Action Receipt suffix) (fs : Fs) (q : PosixPath) : Prop :=
  q ∈ plan.target.ancestors ∨ leavesEntry plan fs q = true

/-- The plan removes its target, and from the target's directory out to this one each directory
bears a managed name and holds nothing that remains but the next one. -/
def Vacated (plan : Plan Action Receipt suffix) (fs : Fs) (dir : PosixPath) : Prop :=
  plan.write.isRemove = true ∧ Hollow (Remains plan fs) plan.target dir

/-- The directories and the entries of the tree that an apply leaves. -/
structure Tidied (plan : Plan Action Receipt suffix) (fs fs' : Fs) : Prop where
  directory : ∀ q, fs'.get q = some .directory
    ↔ ¬Vacated plan fs q ∧ (q ∈ plan.target.ancestors ∨ fs.get q = some .directory)
  present : ∀ q, (fs'.get q).isSome = true ↔ ¬Vacated plan fs q ∧ Remains plan fs q

theorem Hollow.congr {present present' : PosixPath → Prop} {target dir : PosixPath}
    (h : ∀ q, present q ↔ present' q) : Hollow present target dir ↔ Hollow present' target dir := by
  have heq : present = present' := funext fun q => propext (h q)
  rw [heq]

theorem applyPlan_ends (hs : Apart suffix) :
    Ends (fun _ fs => Tidied plan d.fs fs) (applyPlan codec traits plan) d := by
  have hparts : applyPlan codec traits plan = (do
      let lock ← acquireLock .lock plan.target
      ensuring (applyLocked codec traits plan) (releaseLock .release lock)) >>= fun _ =>
        runIf (plan.write.isRemove = true) (pruneEmptyManagedDirectories .prune plan.target) := by
    rw [bind_assoc]
    rfl
  rw [hparts]
  refine ends_bind (applyPlan_leaves hs) fun _ d₁ h₁ => ?_
  refine ends_runIf (fun hremove => ?_) fun hkept => ?_
  · have hdirs : ∀ a ∈ plan.target.ancestors, d₁.fs.get a = some .directory :=
      fun a ha => (h₁.directory a).mpr (.inl ha)
    have hprune : Ends (fun _ fs => Pruned plan.target d₁.fs fs)
        (pruneDirectories .prune plan.target.ancestors.reverse) d₁ :=
      pruneDirectories_ends hdirs plan.target.ancestors.reverse [] d₁ rfl (fun q => by simp)
        fun a ha => nomatch ha
    refine ends_mono hprune fun _ fs h => ?_
    have hvacated : ∀ q, Hollow (fun p => (d₁.fs.get p).isSome = true) plan.target q
        ↔ Vacated plan d.fs q := by
      intro q
      rw [Hollow.congr h₁.present]
      exact (and_iff_right hremove).symm
    refine ⟨fun q => ?_, fun q => ?_⟩
    · by_cases hq : Vacated plan d.fs q
      · simp [h.gone q ((hvacated q).mpr hq), hq]
      · rw [h.same q fun hh => hq ((hvacated q).mp hh), h₁.directory, and_iff_right hq]
    · by_cases hq : Vacated plan d.fs q
      · simp [h.gone q ((hvacated q).mpr hq), hq]
      · rw [h.same q fun hh => hq ((hvacated q).mp hh), h₁.present, and_iff_right hq]
        exact Iff.rfl
  · have hnot : ∀ q, ¬Vacated plan d.fs q := fun q h => hkept h.1
    exact ⟨fun q => by rw [h₁.directory, and_iff_right (hnot q)],
      fun q => by rw [h₁.present, and_iff_right (hnot q)]; exact Iff.rfl⟩

end

/-! ## An install and its teardown -/

/-- The program ran from one drive to the other, and no call failed. -/
structure Applied (p : FsProg Unit) (d d' : Drive Site) : Prop where
  ran : run Drive.answer p d = some (.ok (), d')
  unfailed : d'.failed = none

/-- The directories of the tree before an install, after it, before its teardown and after that. -/
structure PrunesOwn (fs₀ fs₁ fs₂ fs₃ : Fs) : Prop where
  /-- what was there before the install, and not removed by the user, is still there -/
  kept : ∀ dir, fs₀.get dir = some .directory → fs₂.get dir = some .directory →
    fs₃.get dir = some .directory
  /-- what the install made is gone when it is empty -/
  cleared : ∀ dir, fs₀.get dir = none → fs₁.get dir = some .directory →
    fs₃.get dir = some .directory → fs₃.hasChild dir = true

/-- What the teardown finds empty on its way is what the install made. -/
structure Matches {Action Receipt : Type} {suffix : String} (teardown : Plan Action Receipt suffix)
    (fs₀ fs₁ fs₂ : Fs) : Prop where
  /-- none of the directories that it vacates was there before the install -/
  own : ∀ dir, Vacated teardown fs₂ dir → fs₂.get dir = some .directory →
    fs₀.get dir ≠ some .directory
  /-- a directory that the install made, and of whose entries none remains, is vacated itself: the
  target is removed, and the directory bears a managed name -/
  all : ∀ dir, fs₀.get dir = none → fs₁.get dir = some .directory →
    (∀ q, q.parent = some dir → Remains teardown fs₂ q → Vacated teardown fs₂ q) →
    Vacated teardown fs₂ dir

/-- Before a teardown that changes nothing, no directory that the install made is empty; before
any other, the directories match. -/
def Retraces {Action Receipt : Type} {suffix : String} (isNoop : Bool)
    (teardown : Plan Action Receipt suffix) (fs₀ fs₁ fs₂ : Fs) : Prop :=
  if isNoop then
    ∀ dir, fs₀.get dir = none → fs₁.get dir = some .directory →
      fs₂.get dir = some .directory → fs₂.hasChild dir = true
  else Matches teardown fs₀ fs₁ fs₂

section

variable {Action Receipt : Type} {suffix : String} {codec : ReceiptCodec Receipt}
  {traits : Traits} {install teardown : Plan Action Receipt suffix} {d₀ d₁ d₂ d₃ : Drive Site}

theorem Applied.tidied (hs : Apart suffix) (h : Applied (applyPlan codec traits install) d₀ d₁) :
    Tidied install d₀.fs d₁.fs :=
  applyPlan_ends hs () d₁ h.ran h.unfailed

/-- An install makes no directories but those above its target. -/
theorem made_above {isNoop : Bool} (hs : Apart suffix)
    (h : Applied (runIf (isNoop = false) (applyPlan codec traits install)) d₀ d₁)
    {dir : PosixPath} (hnone : d₀.fs.get dir = none) (hmade : d₁.fs.get dir = some .directory) :
    dir ∈ install.target.ancestors := by
  cases isNoop with
  | true =>
    have hran := h.ran
    cases hran
    rw [hnone] at hmade
    cases hmade
  | false =>
    have happlied : Applied (applyPlan codec traits install) d₀ d₁ := ⟨h.ran, h.unfailed⟩
    rcases (((happlied.tidied hs).directory dir).mp hmade).2 with habove | hdir
    · exact habove
    · rw [hnone] at hdir
      cases hdir

theorem Tidied.hasChild_iff {fs fs' : Fs} {dir : PosixPath} (h : Tidied install fs fs') :
    fs'.hasChild dir = true
      ↔ ∃ q, q.parent = some dir ∧ Remains install fs q ∧ ¬Vacated install fs q := by
  rw [Fs.hasChild_iff]
  refine exists_congr fun q => ?_
  rw [h.present q]
  tauto

theorem prunesOwn_iff_matches (htidied : Tidied teardown d₂.fs d₃.fs)
    (habove : ∀ dir, d₀.fs.get dir = none → d₁.fs.get dir = some .directory →
      dir ∈ teardown.target.ancestors) :
    PrunesOwn d₀.fs d₁.fs d₂.fs d₃.fs ↔ Matches teardown d₀.fs d₁.fs d₂.fs := by
  constructor
  · intro h
    refine ⟨fun dir hvacated htwo hzero => ?_, fun dir hnone hmade hchildren => ?_⟩
    · exact ((htidied.directory dir).mp (h.kept dir hzero htwo)).1 hvacated
    · by_contra hnot
      have hdir := (htidied.directory dir).mpr ⟨hnot, .inl (habove dir hnone hmade)⟩
      obtain ⟨q, hparent, hremains, hq⟩ := htidied.hasChild_iff.mp (h.cleared dir hnone hmade hdir)
      exact hq (hchildren q hparent hremains)
  · intro h
    refine ⟨fun dir hzero htwo => ?_, fun dir hnone hmade hdir => ?_⟩
    · exact (htidied.directory dir).mpr ⟨fun hvacated => h.own dir hvacated htwo hzero, .inr htwo⟩
    · by_contra hempty
      refine ((htidied.directory dir).mp hdir).1 (h.all dir hnone hmade fun q hparent hremains => ?_)
      by_contra hq
      exact hempty (htidied.hasChild_iff.mpr ⟨q, hparent, hremains, hq⟩)

theorem prunesOwn_iff {isNoop isNoop' : Bool} (hs : Apart suffix)
    (htarget : teardown.target = install.target)
    (hinstall : Applied (runIf (isNoop = false) (applyPlan codec traits install)) d₀ d₁)
    (hteardown : Applied (runIf (isNoop' = false) (applyPlan codec traits teardown)) d₂ d₃) :
    PrunesOwn d₀.fs d₁.fs d₂.fs d₃.fs ↔ Retraces isNoop' teardown d₀.fs d₁.fs d₂.fs := by
  unfold Retraces
  cases isNoop' with
  | true =>
    have hran := hteardown.ran
    cases hran
    exact ⟨fun h => h.cleared, fun h => ⟨fun _ _ hdir => hdir, h⟩⟩
  | false =>
    have happlied : Applied (applyPlan codec traits teardown) d₂ d₃ :=
      ⟨hteardown.ran, hteardown.unfailed⟩
    have htidied := happlied.tidied hs
    rw [if_neg Bool.false_ne_true]
    refine prunesOwn_iff_matches htidied fun dir hnone hmade => ?_
    rw [htarget]
    exact made_above hs hinstall hnone hmade

end

/-- After an install of any kind, the user's edits and a teardown of the same target, the
directories from before the install are still there and the empty ones that it made are gone,
exactly where those that the teardown finds empty on its way are those that the install made. -/
theorem prune_exactly {Receipt : Type} {codec : ReceiptCodec Receipt} {d₀ d₁ d₂ d₃ : Drive Site} :
    (∀ install teardown : ConnectionPlan Receipt, teardown.target = install.target →
        Applied (ConnectionPlan.apply codec install) d₀ d₁ →
        Applied (ConnectionPlan.apply codec teardown) d₂ d₃ →
        (PrunesOwn d₀.fs d₁.fs d₂.fs d₃.fs
          ↔ Retraces teardown.action.isNoop teardown d₀.fs d₁.fs d₂.fs))
      ∧ (∀ install teardown : InstructionPlan Receipt, teardown.target = install.target →
        Applied (InstructionPlan.apply codec install) d₀ d₁ →
        Applied (InstructionPlan.apply codec teardown) d₂ d₃ →
        (PrunesOwn d₀.fs d₁.fs d₂.fs d₃.fs
          ↔ Retraces teardown.action.isNoop teardown d₀.fs d₁.fs d₂.fs))
      ∧ ∀ install teardown : HookPlan Receipt, teardown.target = install.target →
        Applied (HookPlan.apply codec install) d₀ d₁ →
        Applied (HookPlan.apply codec teardown) d₂ d₃ →
        (PrunesOwn d₀.fs d₁.fs d₂.fs d₃.fs
          ↔ Retraces teardown.action.isNoop teardown d₀.fs d₁.fs d₂.fs) := by
  have howner : Apart ".kaleidoscope-owner.json" := ⟨by decide, by decide, by decide⟩
  have hinstruction : Apart ".kaleidoscope-instruction-owner.json" :=
    ⟨by decide, by decide, by decide⟩
  refine ⟨fun install teardown htarget hinstall hteardown => ?_,
    fun install teardown htarget hinstall hteardown => ?_,
    fun install teardown htarget hinstall hteardown => ?_⟩
  · exact prunesOwn_iff howner htarget hinstall hteardown
  · exact prunesOwn_iff hinstruction htarget hinstall hteardown
  · exact prunesOwn_iff howner htarget hinstall hteardown

namespace Sample

open Hooks Hooks.Sample

def claude : PosixPath := PosixPath.root.join ".claude".toList

/-- A disk on which nothing fails, with these directories. -/
def drive (directories : List PosixPath) : Drive Site where
  fs := ⟨directories.map fun dir => (dir, .directory)⟩
  processId := 1
  fault := none

/-- A plan and the drives before and after its apply. -/
structure Turn where
  plan : HookPlan HookReceipt
  start : Drive Site
  finish : Drive Site

/-- Apply a plan, if it is not refused. -/
def turn (planned : Result (HookPlan HookReceipt)) (d : Drive Site) : Option Turn :=
  match planned with
  | .error _ => none
  | .ok plan =>
    match run Drive.answer (HookPlan.apply crates.receipts plan) d with
    | some (.ok (), d') => if d'.failed = none then some ⟨plan, d, d'⟩ else none
    | _ => none

theorem turn_eq_some {planned : Result (HookPlan HookReceipt)} {d : Drive Site} {t : Turn}
    (h : turn planned d = some t) : planned = .ok t.plan ∧ t.start = d
      ∧ Applied (HookPlan.apply crates.receipts t.plan) t.start t.finish := by
  unfold turn at h
  split at h
  next => cases h
  next plan =>
    split at h
    next d' hrun =>
      split at h
      next hfailed =>
        cases h
        exact ⟨rfl, rfl, hrun, hfailed⟩
      next => cases h
    next => cases h

/-- The settings and the files beside them. -/
def nodesOf (fs : Fs) : Nodes where
  target := fs.get target
  receipt := fs.get (claude.join "settings.json.kaleidoscope-owner.json".toList)
  backup := fs.get (claude.join "settings.json.kaleidoscope-backup".toList)

/-- An install on the disk, and the removal after it, with no edit in between. -/
def installed (d : Drive Site) : Option Turn :=
  turn (planInstallAt crates .user manager profile target (nodesOf d.fs)) d

def removed (d : Drive Site) : Option Turn :=
  (installed d).bind fun t =>
    turn (planRemoveAt crates .user target false (nodesOf t.finish.fs)) t.finish

/-- The kinds and the targets of the two plans, and whether the directory is there after each. -/
def reported (d : Drive Site) :
    Option ((HookAction × PosixPath × Bool) × HookAction × PosixPath × Bool) :=
  (installed d).bind fun t => (removed d).map fun t' =>
    ((t.plan.action, t.plan.target, t.finish.fs.isDirectory claude),
      t'.plan.action, t'.plan.target, t'.finish.fs.isDirectory claude)

/-- An install and a removal after which the directory is gone. -/
theorem reported_eq_some {d : Drive Site}
    (h : reported d = some ((.add, target, true), .remove, target, false)) :
    ∃ t t', installed d = some t ∧ removed d = some t'
      ∧ t'.plan.action = .remove ∧ t'.plan.target = t.plan.target
      ∧ Applied (HookPlan.apply crates.receipts t.plan) d t.finish
      ∧ Applied (HookPlan.apply crates.receipts t'.plan) t.finish t'.finish
      ∧ t.finish.fs.isDirectory claude = true ∧ t'.finish.fs.isDirectory claude = false := by
  obtain ⟨t, ht, h⟩ := Option.bind_eq_some_iff.mp h
  obtain ⟨t', ht', h⟩ := Option.map_eq_some_iff.mp h
  simp only [Prod.mk.injEq] at h
  obtain ⟨⟨-, htarget, hthere⟩, haction', htarget', hgone⟩ := h
  have hremoved := ht'
  unfold removed at hremoved
  rw [ht, Option.bind_some] at hremoved
  obtain ⟨-, hstart', happlied'⟩ := turn_eq_some hremoved
  obtain ⟨-, hstart, happlied⟩ := turn_eq_some ht
  rw [hstart] at happlied
  rw [hstart'] at happlied'
  exact ⟨t, t', ht, ht', haction', htarget'.trans htarget.symm, happlied, happlied', hthere, hgone⟩

end Sample

section

open Sample Hooks.Sample

/-- The install makes the directory and the removal prunes it. -/
theorem prune_exactly_made : ∃ t t', installed (drive []) = some t ∧ removed (drive []) = some t'
    ∧ (PrunesOwn (drive []).fs t.finish.fs t.finish.fs t'.finish.fs
      ↔ Retraces false t'.plan (drive []).fs t.finish.fs t.finish.fs) := by
  have hrun : reported (drive []) = some ((.add, target, true), .remove, target, false) := by
    decide +kernel
  obtain ⟨t, t', ht, ht', haction, htarget, hinstall, hremove, -⟩ := reported_eq_some hrun
  have hiff := (@prune_exactly _ crates.receipts (drive []) t.finish t.finish t'.finish).2.2
    t.plan t'.plan htarget hinstall hremove
  rw [haction] at hiff
  exact ⟨t, t', ht, ht', hiff⟩

/-- A directory that was there before the install, and empty, is pruned with the removal. -/
theorem prunes_directory_of_user : ∃ t t', installed (drive [claude]) = some t
    ∧ removed (drive [claude]) = some t'
    ∧ Applied (HookPlan.apply crates.receipts t.plan) (drive [claude]) t.finish
    ∧ Applied (HookPlan.apply crates.receipts t'.plan) t.finish t'.finish
    ∧ ¬PrunesOwn (drive [claude]).fs t.finish.fs t.finish.fs t'.finish.fs := by
  have hrun : reported (drive [claude]) = some ((.add, target, true), .remove, target, false) := by
    decide +kernel
  obtain ⟨t, t', ht, ht', -, -, hinstall, hremove, hthere, hgone⟩ := reported_eq_some hrun
  refine ⟨t, t', ht, ht', hinstall, hremove, fun h => ?_⟩
  have hbefore : (drive [claude]).fs.get claude = some .directory := by decide
  have hbetween : t.finish.fs.get claude = some .directory := by
    simpa [Fs.isDirectory, claude, PosixPath.root, PosixPath.join] using hthere
  have hafter := h.kept claude hbefore hbetween
  rw [Fs.isDirectory, hafter] at hgone
  simp at hgone

end

end Kaleidoscope.Prune
