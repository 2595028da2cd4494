import Kaleidoscope.Sdk.Tail

/-!
# The sessions of the TypeScript SDK

A `PersistentKaleidoscopeSession` connects, serves and closes, and may connect again.  Its ring of
error output is a field of the session: no connect empties it.

    stderr_after          the ring holds the end of what all children of the session wrote
    connect_blames_own    a connect that finds the ring empty, or whose child fills it, is blamed on
                          the output of its own child
-/

namespace Kaleidoscope.Sdk

/-! ## The session -/

/-- The fields of a `PersistentKaleidoscopeSession` that change. -/
structure SessionState where
  /-- `#client` is set -/
  connected : Bool := false
  stderr : List UInt8 := []

/-- What a connect meets: the answer of the preflight, what the child writes until the connect
returns, and whether the handshake and the discovery of the tools succeed. -/
structure ConnectAttempt where
  keyMissing : Bool
  chunks : List (List UInt8)
  discovered : Bool

/-- What the child of the attempt wrote. -/
def ConnectAttempt.output (attempt : ConnectAttempt) : List UInt8 := attempt.chunks.flatten

inductive ConnectOutcome where
  | alreadyConnected
  /-- `E_NO_KEY` of the preflight, before a child is spawned -/
  | preflightRefused
  | connected
  | entitlementError (reason diagnostic : Text)
  /-- the error that the attempt ended with -/
  | failed
  deriving DecidableEq

/-- What a failed connect throws, from the ring as it is once the child is reaped. -/
def refusalOf (stderr : List UInt8) : ConnectOutcome :=
  match classifyRefusalTypescript stderr none with
  | some reason => .entitlementError reason (boundedDiagnosticTypescript stderr)
  | none => .failed

def connect (s : SessionState) (attempt : ConnectAttempt) : ConnectOutcome × SessionState :=
  if s.connected then (.alreadyConnected, s)
  else if attempt.keyMissing then (.preflightRefused, s)
  else
    let stderr := attempt.chunks.foldl pushStderr s.stderr
    if attempt.discovered then (.connected, { connected := true, stderr })
    else (refusalOf stderr, { connected := false, stderr })

/-- The calls on a session, and what its child writes between them. -/
inductive SessionCall where
  | connect (attempt : ConnectAttempt)
  | written (chunk : List UInt8)
  | close

def SessionState.step (s : SessionState) : SessionCall → SessionState
  | .connect attempt => (Sdk.connect s attempt).2
  | .written chunk => if s.connected then { s with stderr := pushStderr s.stderr chunk } else s
  | .close => { s with connected := false }

/-- A session after some calls. -/
def SessionState.after (s : SessionState) (calls : List SessionCall) : SessionState :=
  calls.foldl SessionState.step s

/-! ## What the children wrote -/

/-- What a call adds to the error output of the children of the session. -/
def SessionState.added (s : SessionState) : SessionCall → List UInt8
  | .connect attempt => if s.connected || attempt.keyMissing then [] else attempt.output
  | .written chunk => if s.connected then chunk else []
  | .close => []

/-- The error output of all children of the session. -/
def SessionState.written (s : SessionState) : List SessionCall → List UInt8
  | [] => []
  | call :: calls => s.added call ++ (s.step call).written calls

theorem pushStderr_eq (ring chunk : List UInt8) :
    pushStderr ring chunk = lastBytes stderrLimit (ring ++ chunk) := by
  unfold pushStderr lastBytes
  rfl

theorem stderr_step (s : SessionState) (call : SessionCall)
    (hlen : s.stderr.length ≤ stderrLimit) :
    (s.step call).stderr = lastBytes stderrLimit (s.stderr ++ s.added call) := by
  have hkeep : s.stderr = lastBytes stderrLimit (s.stderr ++ []) := by
    have := ring_eq [] s.stderr hlen
    exact this
  cases call with
  | connect attempt =>
    have hring := ring_eq attempt.chunks s.stderr hlen
    unfold SessionState.step SessionState.added connect
    by_cases hconnected : s.connected = true
    · simp only [hconnected, if_true, Bool.true_or]
      exact hkeep
    · by_cases hkey : attempt.keyMissing = true
      · simp only [hconnected, hkey, if_true, Bool.or_true]
        exact hkeep
      · simp only [hconnected, hkey, Bool.or_self, Bool.false_eq_true, if_false]
        split
        · exact hring
        · exact hring
  | written chunk =>
    by_cases hconnected : s.connected = true
    · simp only [SessionState.step, SessionState.added, hconnected, if_true]
      exact pushStderr_eq s.stderr chunk
    · simp only [SessionState.step, SessionState.added, hconnected, Bool.false_eq_true, if_false]
      exact hkeep
  | close => exact hkeep

/-- The ring holds the end of what all children of the session wrote. -/
theorem stderr_after (calls : List SessionCall) : ∀ s : SessionState,
    s.stderr.length ≤ stderrLimit →
    (s.after calls).stderr = lastBytes stderrLimit (s.stderr ++ s.written calls) := by
  induction calls with
  | nil =>
    intro s hlen
    exact ring_eq [] s.stderr hlen
  | cons call calls ih =>
    intro s hlen
    have hstep := stderr_step s call hlen
    have hnext : (s.step call).stderr.length ≤ stderrLimit := by
      rw [hstep]
      unfold lastBytes
      rw [List.length_drop]
      omega
    show ((s.step call).after calls).stderr = _
    rw [ih _ hnext, hstep, lastBytes_append_lastBytes, List.append_assoc]
    rfl

/-! ## The blame -/

/-- A connect that rejects with an entitlement error says what its own child wrote. -/
def BlamesOwn (attempt : ConnectAttempt) (outcome : ConnectOutcome) : Prop :=
  ∀ reason diagnostic, outcome = .entitlementError reason diagnostic →
    (∃ a b id, MarkerLine endsLineTypescript attempt.output a b id)
      ∧ diagnostic = boundedDiagnosticTypescript attempt.output

/-- The children before wrote nothing, or this one writes so much that the ring holds its output
alone; and its output does not imitate a marker line where the ring begins. -/
structure Unmixed (before : List SessionCall) (attempt : ConnectAttempt) : Prop where
  alone : SessionState.written {} before = [] ∨ stderrLimit ≤ attempt.output.length
  honest : ¬Imitates endsLineTypescript attempt.output

theorem lastBytes_append {n : Nat} {a b : List UInt8} (h : a = [] ∨ n ≤ b.length) :
    lastBytes n (a ++ b) = lastBytes n b := by
  rcases h with rfl | h
  · rfl
  · unfold lastBytes
    rw [List.length_append, show a.length + b.length - n = a.length + (b.length - n) by omega,
      ← List.drop_drop, List.drop_left]

theorem lastBytes_lastBytes (n : Nat) (stderr : List UInt8) :
    lastBytes n (lastBytes n stderr) = lastBytes n stderr := by
  have hlast := lastBytes_append_lastBytes n stderr []
  rwa [List.append_nil, List.append_nil] at hlast

theorem keptText_eq (stderr : List UInt8) :
    keptText stderr = stripEdges (Utf8.decodeLossy (lastBytes maxDiagnosticBytes stderr)) := by
  unfold keptText lastBytes
  rfl

theorem stderrLimit_eq : stderrLimit = maxDiagnosticBytes := by
  decide +kernel

/-- The diagnostic is taken from the bytes that the ring keeps. -/
theorem boundedDiagnostic_lastBytes (stderr : List UInt8) :
    boundedDiagnosticTypescript (lastBytes maxDiagnosticBytes stderr)
      = boundedDiagnosticTypescript stderr := by
  have hkept : keptText (lastBytes maxDiagnosticBytes stderr) = keptText stderr := by
    rw [keptText_eq, keptText_eq, lastBytes_lastBytes]
  unfold boundedDiagnosticTypescript boundedDiagnostic maskedText
  rw [hkept]

/-- The error of a refused connect names what the ring reads as, and shows the ring. -/
theorem refusalOf_cases {ring : List UInt8} {reason diagnostic : Text}
    (h : refusalOf ring = .entitlementError reason diagnostic) :
    (∃ id, lastMarker endsLineTypescript ring = some id)
      ∧ diagnostic = boundedDiagnosticTypescript ring := by
  unfold refusalOf at h
  cases hclass : classifyRefusalTypescript ring none with
  | none =>
    rw [hclass] at h
    cases h
  | some reason' =>
    rw [hclass] at h
    cases h
    unfold classifyRefusalTypescript at hclass
    refine ⟨Option.ne_none_iff_exists'.mp (classify_ne_none.mp ?_), rfl⟩
    rw [hclass]
    simp

theorem mem_markers_of_lastMarker {p : Char → Bool} {stderr : List UInt8} {id : Text}
    (h : lastMarker p stderr = some id) : id ∈ markers p true (Utf8.decodeLossy stderr) :=
  List.mem_of_getLast? h

theorem refusalOf_blames {output : List UInt8} {reason diagnostic : Text}
    (hhonest : ¬Imitates endsLineTypescript output)
    (h : refusalOf (lastBytes maxDiagnosticBytes output) = .entitlementError reason diagnostic) :
    (∃ a b id, MarkerLine endsLineTypescript output a b id)
      ∧ diagnostic = boundedDiagnosticTypescript output := by
  obtain ⟨⟨id, hid⟩, hdiagnostic⟩ := refusalOf_cases h
  rw [boundedDiagnostic_lastBytes] at hdiagnostic
  exact ⟨tail_sound typescript_lineEnds (mem_markers_of_lastMarker hid) hhonest, hdiagnostic⟩

/-- A connect whose child is not mixed with others is blamed on that child. -/
theorem connect_blames_own {before : List SessionCall} {attempt : ConnectAttempt}
    (h : Unmixed before attempt) :
    BlamesOwn attempt (connect (SessionState.after {} before) attempt).1 := by
  intro reason diagnostic houtcome
  have hstate := stderr_after before {} (Nat.zero_le _)
  rw [List.nil_append] at hstate
  generalize SessionState.after {} before = s at hstate houtcome
  have hlen : s.stderr.length ≤ stderrLimit := by
    rw [hstate]
    unfold lastBytes
    rw [List.length_drop]
    omega
  have hring :
      attempt.chunks.foldl pushStderr s.stderr = lastBytes maxDiagnosticBytes attempt.output := by
    rw [ring_eq attempt.chunks s.stderr hlen, hstate, lastBytes_append_lastBytes,
      ← stderrLimit_eq]
    exact lastBytes_append h.alone
  unfold connect at houtcome
  by_cases hconnected : s.connected = true
  · rw [if_pos hconnected] at houtcome
    cases houtcome
  rw [if_neg hconnected] at houtcome
  by_cases hkey : attempt.keyMissing = true
  · rw [if_pos hkey] at houtcome
    cases houtcome
  rw [if_neg hkey] at houtcome
  by_cases hdiscovered : attempt.discovered = true
  · simp only [hdiscovered, if_true] at houtcome
    cases houtcome
  simp only [hdiscovered, Bool.false_eq_true, if_false] at houtcome
  rw [hring] at houtcome
  exact refusalOf_blames h.honest houtcome

/-- In a run each of whose connects is not mixed with others, each connect is blamed on its own
child. -/
theorem session_blames_own (calls : List SessionCall)
    (h : ∀ before attempt rest, calls = before ++ .connect attempt :: rest →
      Unmixed before attempt) :
    ∀ before attempt rest, calls = before ++ .connect attempt :: rest →
      BlamesOwn attempt (connect (SessionState.after {} before) attempt).1 :=
  fun before attempt rest hcalls => connect_blames_own (h before attempt rest hcalls)

/-- A child that is refused. -/
def refusedAttempt : ConnectAttempt :=
  { keyMissing := false, discovered := false
    chunks := [asciiOctets "kscope-entitlement-refusal: E_REVOKED\n".toList] }

/-- A child that fails for another reason and writes nothing. -/
def silentAttempt : ConnectAttempt := { keyMissing := false, discovered := false, chunks := [] }

theorem not_imitates_of_short {p : Char → Bool} {e : List UInt8}
    (h : e.length ≤ maxDiagnosticBytes) : ¬Imitates p e := by
  intro himitates
  have hcut : cutBytes e = [] := by
    unfold cutBytes
    rw [Nat.sub_eq_zero_of_le h, List.take_zero]
  have hinside := himitates.inside
  rw [hcut] at hinside
  cases hinside

/-- The first connect of a session is blamed on its own child. -/
theorem session_blames_own_first :
    BlamesOwn refusedAttempt (connect (SessionState.after {} []) refusedAttempt).1 := by
  refine session_blames_own [.connect refusedAttempt] ?_ [] refusedAttempt [] rfl
  intro before attempt rest hcalls
  cases before with
  | nil =>
    cases hcalls
    exact ⟨.inl rfl, not_imitates_of_short (by decide +kernel)⟩
  | cons call before =>
    have := congrArg List.length hcalls
    simp at this

/-- The second child wrote nothing, and its failure is reported as the refusal of the first. -/
theorem refusal_leaks :
    ¬BlamesOwn silentAttempt
      (connect (SessionState.after {} [.connect refusedAttempt]) silentAttempt).1 := by
  intro hblames
  have houtcome : (connect (SessionState.after {} [.connect refusedAttempt]) silentAttempt).1
      = .entitlementError "E_REVOKED".toList
        "kscope-entitlement-refusal: E_REVOKED".toList := by
    decide +kernel
  obtain ⟨⟨a, b, id, hline⟩, _⟩ := hblames _ _ houtcome
  obtain ⟨after, htext, _⟩ := hline.text
  have hnil : a ++ b = [] := hline.split.symm
  rw [(List.append_eq_nil_iff.mp hnil).2] at htext
  cases htext

end Kaleidoscope.Sdk
