import Mathlib.Data.List.Basic

/-!
# Caches of answers

A cache keeps answers under keys that are computed from the questions.  A policy says what the
cache keeps: it may forget, but holds nothing that was not stored.

    ask_backed       a cache whose entries stand for answers given stays so
    append_sep_inj   a text joined with a separator is split in one way, from the right
-/

namespace Memo

/-! ## Policies -/

structure Policy (κ β : Type) where
  /-- the cache after a hit -/
  touch : List (κ × β) → κ → List (κ × β)
  store : List (κ × β) → κ → β → List (κ × β)
  mem_touch : ∀ {m k p}, p ∈ touch m k → p ∈ m
  mem_store : ∀ {m k v p}, p ∈ store m k v → p = (k, v) ∨ p ∈ m

section

variable {ι κ β : Type}

/-- Each entry stands for an answer that was computed for a question with its key. -/
def Backed (key : ι → κ) (computed : List (ι × β)) (m : List (κ × β)) : Prop :=
  ∀ p ∈ m, ∃ question, (question, p.2) ∈ computed ∧ key question = p.1

theorem Backed.mono {key : ι → κ} {computed more : List (ι × β)} {m : List (κ × β)} (h : Backed key computed m) :
    Backed key (more ++ computed) m := by
  intro p hp
  obtain ⟨question, hmem, hkey⟩ := h p hp
  exact ⟨question, List.mem_append_right more hmem, hkey⟩

variable [DecidableEq κ]

def without (m : List (κ × β)) (k : κ) : List (κ × β) := m.filter fun p => p.1 ≠ k

def lookup (m : List (κ × β)) (k : κ) : Option β := (m.find? fun p => p.1 = k).map (·.2)

/-- A map: nothing is forgotten. -/
def Policy.map : Policy κ β where
  touch m _ := m
  store m k v := (k, v) :: without m k
  mem_touch h := h
  mem_store h := (List.mem_cons.mp h).imp_right List.mem_of_mem_filter

/-- The entries that were used last, up to `size`. -/
def Policy.lru (size : Nat) : Policy κ β where
  touch m k := m.filter (fun p => p.1 = k) ++ without m k
  store m k v := ((k, v) :: without m k).take size
  mem_touch h := (List.mem_append.mp h).elim List.mem_of_mem_filter List.mem_of_mem_filter
  mem_store h := (List.mem_cons.mp (List.mem_of_mem_take h)).imp_right List.mem_of_mem_filter

/-! ## Answers -/

variable (policy : Policy κ β) (key : ι → κ)

/-- A question to the cache; `fresh` is what the computation would answer now, if it does.  The
answer, the cache, and the answers that were computed for it. -/
def ask (m : List (κ × β)) (question : ι) (fresh : Option β) :
    Option β × List (κ × β) × List (ι × β) :=
  match lookup m (key question) with
  | some v => (some v, policy.touch m (key question), [])
  | none =>
    match fresh with
    | some v => (some v, policy.store m (key question) v, [(question, v)])
    | none => (none, m, [])

variable {policy key}

theorem lookup_eq_some {m : List (κ × β)} {k : κ} {v : β} (h : lookup m k = some v) :
    (k, v) ∈ m := by
  obtain ⟨p, hfind, rfl⟩ := Option.map_eq_some_iff.mp h
  have hkey : p.1 = k := by
    simpa using List.find?_some hfind
  rw [← hkey]
  exact List.mem_of_find?_eq_some hfind

/-- A cache whose entries stand for computed answers stays so, and what it answers was computed for
a question with the same key. -/
theorem ask_backed {computed : List (ι × β)} {m : List (κ × β)} (h : Backed key computed m)
    (question : ι) (fresh : Option β) :
    Backed key ((ask policy key m question fresh).2.2 ++ computed)
        (ask policy key m question fresh).2.1
      ∧ ∀ v, (ask policy key m question fresh).1 = some v →
        ∃ question', (question', v) ∈ (ask policy key m question fresh).2.2 ++ computed
          ∧ key question' = key question := by
  unfold ask
  cases hlook : lookup m (key question) with
  | some v =>
    refine ⟨fun p hp => h p (policy.mem_touch hp), ?_⟩
    rintro v' ⟨⟩
    exact h _ (lookup_eq_some hlook)
  | none =>
    cases fresh with
    | none =>
      refine ⟨h, ?_⟩
      rintro v ⟨⟩
    | some v =>
      refine ⟨fun p hp => ?_, ?_⟩
      · rcases policy.mem_store hp with rfl | hp
        · exact ⟨question, List.mem_cons_self, rfl⟩
        · exact h.mono p hp
      · rintro v' ⟨⟩
        exact ⟨question, List.mem_cons_self, rfl⟩

/-- What is computed is computed for the question that was asked. -/
theorem ask_computed {m : List (κ × β)} {question : ι} {fresh : Option β} :
    ∀ p ∈ (ask policy key m question fresh).2.2, p.1 = question := by
  intro p hp
  unfold ask at hp
  cases hlook : lookup m (key question) with
  | some v =>
    rw [hlook] at hp
    cases hp
  | none =>
    rw [hlook] at hp
    cases fresh with
    | none => cases hp
    | some v => rw [List.mem_singleton.mp hp]

end

/-! ## Joined texts -/

section

variable {α : Type}

/-- A text with a separator is split in one way where the separator does not stand in the second
part; the separator begins with a character it does not hold again. -/
theorem append_sep_inj {c : α} {w x y x' y' : List α} (hc : c ∉ w) (hy : ¬(c :: w) <:+: y)
    (hy' : ¬(c :: w) <:+: y') (h : x ++ (c :: w) ++ y = x' ++ (c :: w) ++ y') :
    x = x' ∧ y = y' := by
  have hlonger : ∀ {x y x' y' : List α}, x.length ≤ x'.length → ¬(c :: w) <:+: y →
      x ++ (c :: w) ++ y = x' ++ (c :: w) ++ y' → x = x' ∧ y = y' := by
    intro x y x' y' hlen hy h
    rw [List.append_assoc, List.append_assoc] at h
    obtain ⟨z, rfl⟩ : x <+: x' :=
      List.prefix_of_prefix_length_le (h ▸ List.prefix_append x (c :: w ++ y))
        (List.prefix_append x' (c :: w ++ y')) hlen
    rw [List.append_assoc] at h
    have h := List.append_cancel_left h
    cases z with
    | nil =>
      rw [List.nil_append] at h
      exact ⟨(List.append_nil x).symm, List.append_cancel_left h⟩
    | cons d z =>
      exfalso
      obtain ⟨rfl, h⟩ := List.cons.inj h
      -- the second separator begins in `w`, or stands in `y`
      rcases List.append_eq_append_iff.mp h with ⟨u, hz, hyu⟩ | ⟨u, hw, hu⟩
      · exact hy ⟨u, y', by rw [hyu, List.append_assoc]⟩
      · cases u with
        | nil =>
          exact hy ⟨[], y', hu⟩
        | cons e u =>
          obtain ⟨rfl, -⟩ := List.cons.inj hu
          have hw : w = z ++ c :: u := (List.cons.inj hw).2
          rw [hw] at hc
          exact hc (List.mem_append_right z List.mem_cons_self)
  rcases Nat.le_total x.length x'.length with hlen | hlen
  · exact hlonger hlen hy h
  · obtain ⟨hx, hy⟩ := hlonger hlen hy' h.symm
    exact ⟨hx.symm, hy.symm⟩

end

end Memo
