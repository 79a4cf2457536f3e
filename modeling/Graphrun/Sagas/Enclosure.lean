import Graphrun.Sagas.Settlement

/-!
# Compensations lie in sagas

The compiler accepts a compensation inside of a saga only. A scope of a run whose definition it
has accepted therefore lies in a saga wherever an activity with a compensation can be reached.
-/

namespace Graphrun

open Lib

variable {s : Core} {catalog : Catalog} {inSaga : Bool}

theorem checkCompensations_eq {region : Region} :
    checkCompensations catalog inSaga region =
      checkCompensationsNodes catalog inSaga region.nodes := by
  cases region
  rw [checkCompensations]

theorem checkCompensationsNodes_mem {nodes : List (String × Node)} {e : String × Node}
    (h : checkCompensationsNodes catalog inSaga nodes = .ok ()) (he : e ∈ nodes) :
    checkCompensationsNode catalog inSaga e.2 = .ok () := by
  induction nodes with
  | nil => cases he
  | cons head rest ih =>
    rw [checkCompensationsNodes, bind_eq_ok] at h
    obtain ⟨⟨⟩, hhead, hrest⟩ := h
    rcases List.mem_cons.mp he with rfl | he
    · exact hhead
    · exact ih hrest he

theorem checkCompensationsBranches_mem {branches : List ParallelBranch} {branch : ParallelBranch}
    (h : checkCompensationsBranches catalog inSaga branches = .ok ()) (hb : branch ∈ branches) :
    checkCompensations catalog inSaga branch.body = .ok () := by
  induction branches with
  | nil => cases hb
  | cons head rest ih =>
    obtain ⟨name, input, body⟩ := head
    rw [checkCompensationsBranches, bind_eq_ok] at h
    obtain ⟨⟨⟩, hhead, hrest⟩ := h
    rcases List.mem_cons.mp hb with rfl | hb
    · exact hhead
    · exact ih hrest hb

theorem checkCompensationsCases_mem {cases : List ChooseCase} {case : ChooseCase}
    (h : checkCompensationsCases catalog inSaga cases = .ok ()) (hc : case ∈ cases) :
    checkCompensations catalog inSaga case.body = .ok () := by
  induction cases with
  | nil => cases hc
  | cons head rest ih =>
    obtain ⟨name, when, body⟩ := head
    rw [checkCompensationsCases, bind_eq_ok] at h
    obtain ⟨⟨⟩, hhead, hrest⟩ := h
    rcases List.mem_cons.mp hc with rfl | hc
    · exact hhead
    · exact ih hrest hc

/-- A body is checked as its node is, and inside of a saga if the node is one. -/
theorem checkCompensations_of_node {node : Node} {role : ScopeRole} {body : Region}
    (h : checkCompensationsNode catalog inSaga node = .ok ())
    (hbody : bodyRegion role node = some body) :
    checkCompensations catalog (inSaga || node.isSaga) body = .ok () := by
  have hwhole : node.body? = some body →
      checkCompensations catalog (inSaga || node.isSaga) body = .ok () := by
    intro hb
    cases node with
    | «while» | doWhile | «repeat» | foreach | saga =>
      obtain rfl := Option.some.inj hb
      simpa [checkCompensationsNode, Node.isSaga] using h
    | _ => cases hb
  cases role with
  | root => cases hbody
  | loopBody | foreachItem | sagaBody => exact hwhole hbody
  | parallelBranch a name =>
    cases node with
    | parallel branches next =>
      obtain ⟨branch, hfind, rfl⟩ := Option.map_eq_some_iff.mp hbody
      simp only [checkCompensationsNode] at h
      simpa [Node.isSaga] using checkCompensationsBranches_mem h (List.mem_of_find?_eq_some hfind)
    | _ => cases hbody
  | chooseBody a name =>
    cases node with
    | choose input cases default next =>
      simp only [checkCompensationsNode, bind_eq_ok] at h
      obtain ⟨⟨⟩, hcases, hdefault⟩ := h
      simp only [bodyRegion, Node.caseBody?] at hbody
      split at hbody
      · obtain rfl := Option.some.inj hbody
        simpa [Node.isSaga] using hdefault
      · obtain ⟨case, hfind, rfl⟩ := Option.map_eq_some_iff.mp hbody
        simpa [Node.isSaga] using
          checkCompensationsCases_mem hcases (List.mem_of_find?_eq_some hfind)
    | _ => cases hbody

/-- The compiler accepts the compensations of the definitions of all runs. -/
def Compensable (s : Core) : Prop :=
  ∀ run r, s.runs.lookup run = some r →
    checkCompensations r.catalog false r.definition.root = .ok ()

/-- The region of a scope is checked inside of a saga only if the scope lies in one. -/
theorem checked_of_regionAt {k : ScopeId} {region : Region} (tree : Tree s) (nested : Nested s)
    (compensable : Compensable s) (h : RegionAt s k region) :
    ∃ catalog inSaga, checkCompensations catalog inSaga region = .ok () ∧
      (inSaga = true → InSaga s k) := by
  induction h with
  | root _ hrun => exact ⟨_, false, compensable _ _ hrun, nofun⟩
  | @body k sc run a act above region node hscope _ hrole hact habove hnode hbody ih =>
    obtain ⟨catalog, inSaga, hchecked, hinside⟩ := ih
    rw [checkCompensations_eq] at hchecked
    obtain ⟨e, he, rfl⟩ := Option.map_eq_some_iff.mp hnode
    have hentry := checkCompensationsNodes_mem hchecked (List.mem_of_find?_eq_some he)
    refine ⟨catalog, inSaga || e.2.isSaga, checkCompensations_of_node hentry hbody, fun h => ?_⟩
    have hparent : sc.parent = some a := (tree.parent k sc hscope).trans hrole
    rcases Bool.or_eq_true _ _ ▸ h with h | h
    · exact .inner hscope hparent hact (hinside h)
    · have hfits := nested.fits k sc a act e.2 hscope hparent hact
        (nodeOf_iff.mpr ⟨above, habove, hnode⟩)
      refine .body hscope (role_of_fits_saga hfits h hrole)

/-- Where an activity with a compensation is, there is a saga around it. -/
theorem enclosed_of_compensable {a : ActivationId} (tree : Tree s) (nested : Nested s)
    (compensable : Compensable s) : Enclosed s a := by
  intro act node hact hnode hcompensates
  obtain ⟨region, hregion, hkey⟩ := nodeOf_iff.mp hnode
  obtain ⟨catalog, inSaga, hchecked, hinside⟩ :=
    checked_of_regionAt tree nested compensable hregion
  rw [checkCompensations_eq] at hchecked
  obtain ⟨e, he, rfl⟩ := Option.map_eq_some_iff.mp hkey
  have hentry := checkCompensationsNodes_mem hchecked (List.mem_of_find?_eq_some he)
  refine (hinside ?_).sagaOwner_isSome tree hact
  revert hentry hcompensates
  generalize e.2 = node
  intro hcompensates hentry
  unfold Node.compensates at hcompensates
  split at hcompensates
  · simp only [checkCompensationsNode, checkCompensation, bind_eq_ok, refuseIf_eq_ok] at hentry
    obtain ⟨contract, -, hin⟩ := hentry
    simpa using hin
  · cases hcompensates

end Graphrun
