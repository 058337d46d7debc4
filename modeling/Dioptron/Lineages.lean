import Dioptron.Decisions

/-! # Lineages and admitted sessions

A tenant is in a lineage when parent links lead from it to the ancestor.  The walk that
decides this follows at most 255 links; on a view whose lineages end within them the
walk always answers, and its answer is the closure of the parent relation.
-/
namespace Dioptron

open Relation (ReflTransGen)

/-- `tenant` is `ancestor` or below it along the parent links `view` answers. -/
def InLineage (view : Snapshot) (tenant ancestor : TenantId) : Prop :=
  ReflTransGen (fun t parent => view.tenantParent t = .ok (some parent)) tenant ancestor

/-- The parent links from a tenant end after exactly `n` of them. -/
inductive Ends (view : Snapshot) : ℕ → TenantId → Prop
  | top {t : TenantId} (hparent : view.tenantParent t = .ok none) : Ends view 0 t
  | link {n : ℕ} {t parent : TenantId} (hparent : view.tenantParent t = .ok (some parent))
      (h : Ends view n parent) : Ends view (n + 1) t

/-- Every lineage of the view ends within the limit of the walk. -/
def Snapshot.LineagesEnd (view : Snapshot) : Prop :=
  ∀ t, ∃ n ≤ maxTenantLineage, Ends view n t

variable {view : Snapshot}

theorem inLineage_of_ne {t parent ancestor : TenantId} (hne : t ≠ ancestor)
    (hparent : view.tenantParent t = .ok (some parent)) :
    InLineage view t ancestor ↔ InLineage view parent ancestor := by
  constructor
  · intro h
    obtain rfl | ⟨p, hp, hrest⟩ := h.cases_head
    · exact absurd rfl hne
    · rw [hparent] at hp
      cases hp
      exact hrest
  · exact ReflTransGen.head hparent

/-- A walk with a turn for every link answers whether the ancestor is on the way. -/
theorem walkLineage_of_ends {tenant ancestor current : TenantId} {n turns : ℕ}
    (h : Ends view n current) (hturns : n < turns) :
    ∃ inside, walkLineage view tenant ancestor turns current = .ok inside ∧
      (inside = true ↔ InLineage view current ancestor) := by
  induction h generalizing turns with
  | @top t hparent =>
    obtain ⟨turns, rfl⟩ : ∃ k, turns = k + 1 := ⟨turns - 1, by omega⟩
    rw [walkLineage]
    by_cases hcur : t = ancestor
    · subst hcur
      exact ⟨true, if_pos rfl, iff_of_true rfl .refl⟩
    · refine ⟨false, by rw [if_neg hcur, hparent]; rfl,
        iff_of_false Bool.false_ne_true fun hin => ?_⟩
      obtain rfl | ⟨p, hp, -⟩ := hin.cases_head
      · exact hcur rfl
      · rw [hparent] at hp
        cases hp
  | @link _ t _ hparent _ ih =>
    obtain ⟨turns, rfl⟩ : ∃ k, turns = k + 1 := ⟨turns - 1, by omega⟩
    rw [walkLineage]
    by_cases hcur : t = ancestor
    · subst hcur
      exact ⟨true, if_pos rfl, iff_of_true rfl .refl⟩
    · obtain ⟨inside, hwalk, hiff⟩ := ih (Nat.lt_of_succ_lt_succ hturns)
      refine ⟨inside, by rw [if_neg hcur, hparent]; exact hwalk, ?_⟩
      rw [inLineage_of_ne hcur hparent]
      exact hiff

theorem Snapshot.LineagesEnd.inLineage (h : view.LineagesEnd) (tenant ancestor : TenantId) :
    ∃ inside, inLineage view tenant ancestor = .ok inside ∧
      (inside = true ↔ InLineage view tenant ancestor) := by
  obtain ⟨n, hn, hends⟩ := h tenant
  exact walkLineage_of_ends hends (Nat.lt_succ_of_le hn)

/-! ## Sessions -/

/-- What the session scope of a link admits: under `Own` the sessions of the holder's
lineage, otherwise the sessions it names. -/
def Admits (view : Snapshot) (owner : TenantId) (session : SessionId) (link : Grant) : Prop :=
  match link.sessionScope with
  | .own => InLineage view owner link.holder
  | .sessions ids => session ∈ ids

theorem Snapshot.LineagesEnd.linkAdmits (h : view.LineagesEnd) (owner : TenantId)
    (session : SessionId) (link : Grant) :
    ∃ admitted, linkAdmits view owner session link = .ok admitted ∧
      (admitted = true ↔ Admits view owner session link) := by
  unfold Dioptron.linkAdmits Admits
  cases link.sessionScope with
  | own => exact h.inLineage owner link.holder
  | sessions ids => exact ⟨ids.contains session, rfl, by simp⟩

theorem Snapshot.LineagesEnd.linksAdmit (h : view.LineagesEnd) (owner : TenantId)
    (session : SessionId) (chain : List Grant) :
    ∃ admitted, linksAdmit view owner session chain = .ok admitted ∧
      (admitted = true ↔ ∀ link ∈ chain, Admits view owner session link) := by
  induction chain with
  | nil => exact ⟨true, rfl, by simp⟩
  | cons link _ ih =>
    obtain ⟨admitted, hlink, hiff⟩ := h.linkAdmits owner session link
    obtain ⟨all, hrest, hall⟩ := ih
    rw [Dioptron.linksAdmit, hlink]
    cases admitted with
    | false =>
      refine ⟨false, rfl, iff_of_false nofun fun hadmits => ?_⟩
      exact Bool.false_ne_true (hiff.mpr (hadmits link List.mem_cons_self))
    | true =>
      refine ⟨all, hrest, ?_⟩
      rw [hall, List.forall_mem_cons]
      exact ⟨fun hadmits => ⟨hiff.mp rfl, hadmits⟩, And.right⟩

end Dioptron
