import RGraph.Proofs.CreatePasses

/-!
# What `CREATE` adds for a row

The nodes are the right ones if no variable of the clause stood for a node
already: the first pass makes one for every node element all the same, so the
numbers differ otherwise. The relationships are then the right ones if the
second pass finds the nodes of the first by their names and every arrow points
to the right. Ids grow from left to right, so the ends of a relationship tell
which way it was written.
-/

namespace RGraph.Cypher

open RGraph.Lib RGraph.Graph RGraph.GraphApi Call List

variable {x : ExecutionContext} {g g' : GraphStore} {row row' : Row}

/-! ## Nodes -/

/-- Every node element is new. -/
def AllNew (row : Row) (ns : List NodePattern) : Prop :=
  (∀ n ∈ ns, ∀ v, n.var = some v → row[v]? = none) ∧ (ns.filterMap (·.var)).Nodup

variable {ns : List NodePattern}

theorem newCount_eq_length_iff : newCount row ns = ns.length ↔ AllNew row ns := by
  rw [AllNew]
  have hlen : ns.length = ns.countP (·.var.isNone) + (ns.filterMap (·.var)).length := by
    induction ns with
    | nil => rfl
    | cons n ns ih =>
      cases hv : n.var with
      | none => simp [hv, ih]; omega
      | some v => simp [hv, ih]; omega
  have hunbound : (∀ n ∈ ns, ∀ v, n.var = some v → row[v]? = none) ↔
      ((ns.filterMap (·.var)).filter fun v => (row[v]?).isNone) = ns.filterMap (·.var) := by
    rw [filter_eq_self]
    constructor
    · intro h v hv
      obtain ⟨n, hn, hvar⟩ := mem_filterMap.mp hv
      simp [h n hn v hvar]
    · intro h n hn v hvar
      simpa using h v (mem_filterMap.mpr ⟨n, hn, hvar⟩)
  rw [newCount, hlen, hunbound, Nat.add_left_cancel_iff]
  constructor
  · intro h
    have hdedup := (dedup_sublist ((ns.filterMap (·.var)).filter fun v => (row[v]?).isNone))
    have hfilter : ((ns.filterMap (·.var)).filter
        fun v => (row[v]?).isNone) = ns.filterMap (·.var) :=
      filter_sublist.eq_of_length_le (h ▸ hdedup.length_le)
    refine ⟨hfilter, ?_⟩
    rw [hfilter] at h hdedup
    exact dedup_eq_self.mp (hdedup.eq_of_length h)
  · rintro ⟨hfilter, hnodup⟩
    rw [hfilter, dedup_eq_self.mpr hnodup]

theorem AllNew.take (h : AllNew row ns) (i : Nat) : AllNew row (ns.take i) :=
  ⟨fun n hn => h.1 n (mem_of_mem_take hn), h.2.sublist ((take_sublist i ns).filterMap _)⟩

/-- A variable that occurs once is found where it occurs. -/
theorem findIdx_var : ∀ {ns : List NodePattern} {i : Nat} {n : NodePattern}
    {v : String}, (ns.filterMap (·.var)).Nodup → ns[i]? = some n →
    n.var = some v → ns.findIdx (fun n => n.var == some v) = i
  | m :: ns, 0, n, v, _, hi, hv => by
    cases hi
    rw [findIdx_cons, hv, beq_self_eq_true, cond_true]
  | m :: ns, i + 1, n, v, hnodup, hi, hv => by
    have hmem : v ∈ ns.filterMap (·.var) := mem_filterMap.mpr ⟨n, mem_of_getElem? hi, hv⟩
    have hm : m.var ≠ some v := by
      intro hm
      rw [filterMap_cons_some hm, nodup_cons] at hnodup
      exact hnodup.1 hmem
    have hnodup' : (ns.filterMap (·.var)).Nodup :=
      hnodup.sublist ((sublist_cons_self m ns).filterMap _)
    rw [findIdx_cons, beq_eq_false_iff_ne.mpr hm, cond_false, findIdx_var hnodup' hi hv]

/-- If every node element is new, they get the ids in order. -/
theorem AllNew.nodeFor_eq (h : AllNew row ns) {next i : Nat} {n : NodePattern}
    (hi : ns[i]? = some n) : nodeFor row next ns i = some (next + i) := by
  have hlen : (ns.take i).length = i := by
    have := (List.getElem?_eq_some_iff.mp hi).1
    rw [length_take]
    omega
  have hcount : newCount row (ns.take i) = i := (newCount_eq_length_iff.mpr (h.take i)).trans hlen
  rw [nodeFor, hi]
  dsimp only
  cases hv : n.var with
  | none =>
    dsimp only
    rw [hcount]
  | some v =>
    dsimp only
    rw [h.1 n (mem_of_getElem? hi) v hv, findIdx_var h.2 hi hv]
    dsimp only
    rw [hcount]

theorem bindNames_of_notMem : ∀ {ns : List NodePattern} {next : Nat}
    {ids : String → Option Nat} {v : String}, v ∉ ns.filterMap (·.var) →
    bindNames ids next ns v = ids v
  | [], _, _, _, _ => rfl
  | n :: ns, next, ids, v, hv => by
    rw [bindNames]
    cases hn : n.var with
    | none =>
      rw [filterMap_cons_none hn] at hv
      exact bindNames_of_notMem hv
    | some w =>
      rw [filterMap_cons_some hn, mem_cons, not_or] at hv
      dsimp only
      rw [bindNames_of_notMem hv.2, Function.update_of_ne hv.1]

/-- After the first pass a variable that occurs once stands for the node of
its element. -/
theorem bindNames_of_nodup : ∀ {ns : List NodePattern} {next i : Nat}
    {ids : String → Option Nat} {n : NodePattern} {v : String},
    (ns.filterMap (·.var)).Nodup → ns[i]? = some n → n.var = some v →
    bindNames ids next ns v = some (next + i)
  | m :: ns, next, 0, ids, n, v, hnodup, hi, hv => by
    cases hi
    rw [filterMap_cons_some hv, nodup_cons] at hnodup
    rw [bindNames, hv]
    dsimp only
    rw [bindNames_of_notMem hnodup.1, Function.update_self]
    rfl
  | m :: ns, next, i + 1, ids, n, v, hnodup, hi, hv => by
    have hnodup' : (ns.filterMap (·.var)).Nodup :=
      hnodup.sublist ((sublist_cons_self m ns).filterMap _)
    rw [bindNames, bindNames_of_nodup hnodup' hi hv]
    congr 1
    omega

/-! ## Relationships -/

/-- The triple is a relationship element with the nodes beside it. -/
def Beside (ns : List NodePattern) (q : Nat × RelationshipPattern) (t : Triple) : Prop :=
  ns[q.1]? = some t.source ∧ ns[q.1 + 1]? = some t.target ∧ q.2 = t.rel

theorem beside_hops {post : List NodePattern} :
    ∀ {hops : List (RelationshipPattern × NodePattern)} {pre : List NodePattern}
    {n : NodePattern}, List.Forall₂
      (Beside (pre ++ n :: (hops.map Prod.snd ++ post)))
      (hopElements pre.length hops) (hopTriples n hops)
  | [], _, _ => .nil
  | h :: hops, pre, n => by
    have ih : List.Forall₂ (Beside ((pre ++ [n]) ++ h.2 :: (hops.map Prod.snd ++ post)))
        (hopElements (pre ++ [n]).length hops) (hopTriples h.2 hops) :=
      beside_hops
    rw [length_append, length_singleton, append_assoc, singleton_append] at ih
    rw [hopElements, hopTriples]
    refine .cons ⟨?_, ?_, rfl⟩ ih
    · simp
    · simp

theorem beside_paths : ∀ {paths : List PathPattern} (pre : List NodePattern),
    List.Forall₂ (Beside (pre ++ nodeElements paths))
      (relationshipElements pre.length paths) (triples paths)
  | [], _ => .nil
  | p :: paths, pre => by
    have hns : pre ++ nodeElements (p :: paths) =
        pre ++ p.first :: (p.hops.map Prod.snd ++ nodeElements paths) := by
      rw [nodeElements, flatMap_cons, cons_append]
      rfl
    have hrest : List.Forall₂ (Beside ((pre ++ p.first ::
        p.hops.map Prod.snd) ++ nodeElements paths))
        (relationshipElements (pre ++ p.first ::
          p.hops.map Prod.snd).length paths) (triples paths) := beside_paths _
    have hlen : (pre ++ p.first :: p.hops.map Prod.snd).length =
        pre.length + 1 + p.hops.length := by
      simp
      omega
    rw [hlen, append_assoc, cons_append] at hrest
    rw [hns, relationshipElements, triples, flatMap_cons]
    exact rel_append beside_hops hrest

/-- No relationship takes the name of an end of a later one. -/
def RelVarsFree (ts : List Triple) : Prop :=
  ts.Pairwise fun t t' => ∀ v, t.rel.var = some v →
    t'.source.var ≠ some v ∧ t'.target.var ≠ some v

/-- The ends of the relationship are found. -/
def EndsFound (ids : String → Option Nat) (t : Triple) (p : Nat × Nat) : Prop :=
  t.source.var.bind ids = some p.1 ∧ t.target.var.bind ids = some p.2

theorem length_made_le : ∀ (ts : List Triple) (ids : String → Option Nat),
    (made ids ts).length ≤ ts.length
  | [], _ => Nat.le_refl 0
  | t :: ts, ids => by
    rw [made]
    split
    · exact Nat.succ_le_succ (length_made_le ts _)
    · exact Nat.le_succ_of_le (length_made_le ts _)

theorem bind_forget {relVar : Option String} {ids : String → Option Nat}
    {var : Option String} {a : Nat} : var.bind (forget relVar ids) = some a ↔
      var.bind ids = some a ∧ ∀ v, relVar = some v → var ≠ some v := by
  cases relVar with
  | none => simp [forget]
  | some w =>
    cases var with
    | none => simp
    | some u =>
      by_cases hu : u = w
      · subst hu
        simp [forget]
      · simp [forget, hu]

theorem exists_of_forall₂ {α β : Type} {R : α → β → Prop} {as : List α}
    {bs : List β} (h : List.Forall₂ R as bs) : ∀ a ∈ as, ∃ b, R a b := by
  induction h with
  | nil => exact nofun
  | cons hab _ ih =>
    intro a ha
    rcases mem_cons.mp ha with rfl | ha
    · exact ⟨_, hab⟩
    · exact ih a ha

/-- If all ends are found and no relationship takes their names, all
relationships are made. -/
theorem made_of_found : ∀ {ts : List Triple} {ids : String → Option Nat},
    (∀ t ∈ ts, ∃ p, EndsFound ids t p) → RelVarsFree ts →
    List.Forall₂ (EndsFound ids) ts (made ids ts)
  | [], _, _, _ => .nil
  | t :: ts, ids, hfound, hfree => by
    obtain ⟨hhead, htail⟩ := pairwise_cons.mp hfree
    obtain ⟨p, hs, ht⟩ := hfound t mem_cons_self
    rw [made, hs, ht]
    refine .cons ⟨hs, ht⟩ ?_
    have ih : List.Forall₂ (EndsFound (forget t.rel.var ids)) ts _ :=
      made_of_found (fun t' ht' => by
        obtain ⟨p', hs', ht''⟩ := hfound t' (mem_cons_of_mem _ ht')
        exact ⟨p', bind_forget.mpr ⟨hs', fun v hv => (hhead t' ht' v hv).1⟩,
          bind_forget.mpr ⟨ht'', fun v hv => (hhead t' ht' v hv).2⟩⟩) htail
    exact ih.imp fun t' p' h => ⟨(bind_forget.mp h.1).1, (bind_forget.mp h.2).1⟩

/-- If all relationships are made, all ends were found and no relationship
took their names. -/
theorem found_of_made : ∀ {ts : List Triple} {ids : String → Option Nat},
    (made ids ts).length = ts.length →
    List.Forall₂ (EndsFound ids) ts (made ids ts) ∧ RelVarsFree ts
  | [], _, _ => ⟨.nil, .nil⟩
  | t :: ts, ids, hlen => by
    rw [made] at hlen ⊢
    split at hlen
    · next source target hs ht =>
        obtain ⟨hfound, hfree⟩ := found_of_made (Nat.succ.inj hlen)
        refine ⟨.cons ⟨hs, ht⟩ (hfound.imp fun t' p' h =>
          ⟨(bind_forget.mp h.1).1, (bind_forget.mp h.2).1⟩),
          pairwise_cons.mpr ⟨fun t' ht' v hv => ?_, hfree⟩⟩
        obtain ⟨p', h⟩ := exists_of_forall₂ hfound t' ht'
        exact ⟨(bind_forget.mp h.1).2 v hv, (bind_forget.mp h.2).2 v hv⟩
    · have hle := length_made_le ts ids
      rw [hlen, length_cons] at hle
      omega

/-! ## The clause -/

/-- No node of the clause is there already, the nodes of a relationship are
found by their names, and no arrow points to the left. -/
structure CreateCovered (row : Row) (paths : List PathPattern) : Prop where
  allNew : AllNew row (nodeElements paths)
  named : ∀ t ∈ triples paths, t.source.var.isSome ∧ t.target.var.isSome
  relVars : RelVarsFree (triples paths)
  written : ∀ t ∈ triples paths, t.rel.direction ≠ .incoming

section Clause

variable {paths : List PathPattern} {g₁ : GraphStore}

variable {ns : List NodePattern} {q : Nat × RelationshipPattern} {t : Triple}

/-- After the first pass the ends of a relationship are the nodes of the
elements beside it. -/
theorem AllNew.ends_eq (h : AllNew row ns) {ids : String → Option Nat}
    {next : Nat} {p : Nat × Nat} (hq : Beside ns q t) (hp : EndsFound (bindNames ids next ns) t p) :
    p = (next + q.1, next + (q.1 + 1)) := by
  have hend : ∀ {n : NodePattern} {i a : Nat}, ns[i]? = some n →
      n.var.bind (bindNames ids next ns) = some a → a = next + i := by
    intro n i a hi ha
    obtain ⟨v, hv, ha⟩ := Option.bind_eq_some_iff.mp ha
    rw [bindNames_of_nodup h.2 hi hv] at ha
    exact (Option.some.inj ha).symm
  exact Prod.ext (hend hq.1 hp.1) (hend hq.2.1 hp.2)

theorem AllNew.found (h : AllNew row ns) (ids : String → Option Nat)
    (next : Nat) (hq : Beside ns q t) (hnamed : t.source.var.isSome ∧ t.target.var.isSome) :
    ∃ p, EndsFound (bindNames ids next ns) t p := by
  obtain ⟨v, hv⟩ := Option.isSome_iff_exists.mp hnamed.1
  obtain ⟨w, hw⟩ := Option.isSome_iff_exists.mp hnamed.2
  refine ⟨(next + q.1, next + (q.1 + 1)), ?_, ?_⟩
  · rw [hv]
    exact bindNames_of_nodup h.2 hq.1 hv
  · rw [hw]
    exact bindNames_of_nodup h.2 hq.2.1 hw

theorem NodesAdded.isSome_iff {n id : Nat} (hfresh : Fresh g)
    (h : NodesAdded n g g₁) : (g₁.nodes[id]?).isSome ↔
      (g.nodes[id]?).isSome ∨ g.nextId ≤ id ∧ id < g.nextId + n := by
  by_cases hlt : id < g.nextId
  · rw [h.old id hlt]
    exact ⟨.inl, fun h => h.resolve_right (by omega)⟩
  · have hnone := (hfresh id (by omega)).1
    by_cases hid : id < g.nextId + n
    · simp [h.added id (by omega) hid, hid]
      omega
    · rw [h.later id (by omega), hnone]
      simp
      omega

theorem EdgesAdded.isSome_iff {ends : List (Nat × Nat)} {e : Nat}
    (hfresh : ∀ e : Nat, g.nextId ≤ e → g.edges[e]? = none)
    (h : EdgesAdded ends g g') : (g'.edges[e]?).isSome ↔
      (g.edges[e]?).isSome ∨ e ∈ List.range' g.nextId ends.length := by
  rw [mem_range'_1]
  by_cases hlt : e < g.nextId
  · rw [h.old e hlt]
    exact ⟨.inl, fun h => h.resolve_right (by omega)⟩
  · have hnone := hfresh e (by omega)
    by_cases he : e < g.nextId + ends.length
    · obtain ⟨r, hr, -⟩ := h.added (e - g.nextId) _ _ (List.getElem?_eq_getElem (by omega))
      rw [Nat.add_sub_cancel' (by omega)] at hr
      simp [hr, he]
      omega
    · rw [h.later e (by omega), hnone]
      simp
      omega

theorem Fresh.edges_nodesAdded {n : Nat} (hfresh : Fresh g)
    (h : NodesAdded n g g₁) (e : Nat) (he : g₁.nextId ≤ e) : g₁.edges[e]? = none := by
  rw [h.edges]
  rw [h.nextId] at he
  exact (hfresh e (by omega)).2

theorem Fresh.lt_of_node {id : Nat} {r : StoredNode} (hfresh : Fresh g)
    (h : g.nodes[id]? = some r) : id < g.nextId := by
  by_contra hle
  rw [(hfresh id (by omega)).1] at h
  cases h

theorem Fresh.lt_of_edge {e : Nat} {r : StoredEdge} (hfresh : Fresh g)
    (h : g.edges[e]? = some r) : e < g.nextId := by
  by_contra hle
  rw [(hfresh e (by omega)).2] at h
  cases h

/-- A relationship that the second pass has made. -/
theorem EdgesAdded.joined {ends : List (Nat × Nat)} (hnew : AllNew row ns)
    (hedges : EdgesAdded ends g₁ g') (hq : Beside ns q t)
    (hdir : t.rel.direction ≠ .incoming) {i next : Nat}
    (hi : ends[i]? = some (next + q.1, next + (q.1 + 1))) :
    Joined row next ns g' q (g₁.nextId + i) := by
  obtain ⟨r, hr, hlive, hs, ht⟩ := hedges.added i _ _ hi
  refine ⟨r, _, _, hr, hlive, hnew.nodeFor_eq hq.1, hnew.nodeFor_eq hq.2.1, ?_⟩
  rw [hq.2.2]
  cases hd : t.rel.direction with
  | outgoing => exact ⟨hs, ht⟩
  | incoming => exact absurd hd hdir
  | both => exact .inl ⟨hs, ht⟩

theorem CreateCovered.createsExactly (hc : CreateCovered row paths)
    (hfresh : Fresh g) (hnodes : NodesAdded (nodeElements paths).length g g₁)
    (hedges : EdgesAdded (made (bindNames (idsOf row) g.nextId
      (nodeElements paths)) (triples paths)) g₁ g') :
    CreatesExactly paths row g g' := by
  have hbeside : List.Forall₂ (Beside (nodeElements paths))
      (relationshipElements 0 paths) (triples paths) :=
    beside_paths []
  have hfound : List.Forall₂ (EndsFound (bindNames (idsOf row) g.nextId
      (nodeElements paths))) (triples paths) _ :=
    made_of_found (fun t ht => by
      obtain ⟨q, hq⟩ := exists_of_forall₂ hbeside.flip t ht
      exact hc.allNew.found _ _ hq (hc.named t ht)) hc.relVars
  have hedgeFresh := hfresh.edges_nodesAdded hnodes
  refine ⟨fun id => ?_, fun id r hr => ?_, ⟨List.range' g₁.nextId
    (made (bindNames (idsOf row) g.nextId (nodeElements paths))
      (triples paths)).length, nodup_range', fun e he => ?_,
    fun e => ?_, ?_⟩, fun e r hr => ?_⟩
  · rw [hedges.nodes, hnodes.isSome_iff hfresh, newCount_eq_length_iff.mpr hc.allNew]
  · rw [hedges.nodes, hnodes.old id (hfresh.lt_of_node hr)]
    exact hr
  · rw [← hnodes.edges]
    exact hedgeFresh e (mem_range'_1.mp he).1
  · rw [hedges.isSome_iff hedgeFresh, hnodes.edges]
  · refine forall₂_iff_get.mpr ⟨?_, fun i h₁ h₂ => ?_⟩
    · rw [length_range', ← hfound.length_eq, hbeside.length_eq]
    · have hts : i < (triples paths).length := hbeside.length_eq ▸ h₁
      have hms := hfound.length_eq ▸ hts
      have hq := hbeside.get h₁ hts
      have hp := hc.allNew.ends_eq hq (hfound.get hts hms)
      have hget : (List.range' g₁.nextId (made (bindNames (idsOf row) g.nextId
          (nodeElements paths)) (triples paths)).length).get ⟨i, h₂⟩ = g₁.nextId + i := by simp
      rw [hget]
      refine hedges.joined hc.allNew hq (hc.written _ (get_mem _ _)) ?_
      rw [← hp]
      exact List.getElem?_eq_getElem hms
  · rw [hedges.old e (by rw [hnodes.nextId]; have := hfresh.lt_of_edge hr; omega), hnodes.edges]
    exact hr

theorem CreatesExactly.allNew (h : CreatesExactly paths row g g')
    (hfresh : Fresh g) (hnodes : NodesAdded (nodeElements paths).length g g₁)
    (heq : g'.nodes = g₁.nodes) : AllNew row (nodeElements paths) := by
  rw [← newCount_eq_length_iff]
  have hiff : ∀ id : Nat, g.nextId ≤ id → (id < g.nextId + (nodeElements paths).length ↔
        id < g.nextId + newCount row (nodeElements paths)) := by
    intro id hle
    have hnone := (hfresh id hle).1
    have := (hnodes.isSome_iff hfresh).symm.trans (heq ▸ h.nodes id)
    simpa [hnone, hle] using this
  have h₁ := hiff (g.nextId + (nodeElements paths).length) (by omega)
  have h₂ := hiff (g.nextId + newCount row (nodeElements paths)) (by omega)
  omega

theorem CreatesExactly.covered (h : CreatesExactly paths row g g')
    (hfresh : Fresh g) (hnodes : NodesAdded (nodeElements paths).length g g₁)
    (hedges : EdgesAdded (made (bindNames (idsOf row) g.nextId
      (nodeElements paths)) (triples paths)) g₁ g') :
    CreateCovered row paths := by
  have hnew := h.allNew hfresh hnodes hedges.nodes
  have hbeside : List.Forall₂ (Beside (nodeElements paths))
      (relationshipElements 0 paths) (triples paths) :=
    beside_paths []
  obtain ⟨es, hnodup, hnone, hmem, hjoined⟩ := h.relationships
  have hes : ∀ e, e ∈ es ↔ e ∈ List.range' g₁.nextId (made (bindNames
      (idsOf row) g.nextId (nodeElements paths)) (triples paths)).length := by
    intro e
    have hiff := (hmem e).symm.trans (hedges.isSome_iff (hfresh.edges_nodesAdded hnodes))
    rw [hnodes.edges] at hiff
    constructor
    · intro he
      have := hiff.mp (.inr he)
      simpa [hnone e he] using this
    · intro he
      have hfree := hfresh.edges_nodesAdded hnodes e (mem_range'_1.mp he).1
      rw [hnodes.edges] at hfree
      simpa [hfree] using hiff.mpr (.inr he)
  have hlen : es.length = (made (bindNames (idsOf row) g.nextId
      (nodeElements paths)) (triples paths)).length := by
    have := ((perm_ext_iff_of_nodup hnodup nodup_range').mpr hes).length_eq
    rwa [length_range'] at this
  have hall : (made (bindNames (idsOf row) g.nextId (nodeElements paths))
      (triples paths)).length = (triples paths).length := by
    rw [← hlen, ← hjoined.length_eq, hbeside.length_eq]
  obtain ⟨hfound, hfree⟩ := found_of_made hall
  refine ⟨hnew, fun t ht => ?_, hfree, fun t ht hdir => ?_⟩
  · obtain ⟨p, hs, ht⟩ := exists_of_forall₂ hfound t ht
    obtain ⟨_, hv, -⟩ := Option.bind_eq_some_iff.mp hs
    obtain ⟨_, hw, -⟩ := Option.bind_eq_some_iff.mp ht
    exact ⟨by rw [hv]; rfl, by rw [hw]; rfl⟩
  · -- ids grow from left to right, so an arrow to the left would have to
    -- start at the larger one
    obtain ⟨⟨j, hj⟩, rfl⟩ := get_of_mem ht
    have hjq := hbeside.length_eq.symm ▸ hj
    have hje := hjoined.length_eq ▸ hjq
    have hq := hbeside.get hjq hj
    obtain ⟨r, near, far, hr, -, hnear, hfar, hdirected⟩ := hjoined.get hjq hje
    rw [hnew.nodeFor_eq hq.1] at hnear
    rw [hnew.nodeFor_eq hq.2.1] at hfar
    cases hnear
    cases hfar
    rw [hq.2.2, hdir] at hdirected
    obtain ⟨k, hk⟩ : ∃ k, es.get ⟨j, hje⟩ = g₁.nextId + k ∧ k < (triples paths).length := by
      have := mem_range'_1.mp ((hes _).mp (get_mem es ⟨j, hje⟩))
      exact ⟨es.get ⟨j, hje⟩ - g₁.nextId, by omega, by omega⟩
    have hkm := hall.symm ▸ hk.2
    have hkq := hbeside.length_eq.symm ▸ hk.2
    have hp := hnew.ends_eq (hbeside.get hkq hk.2) (hfound.get hk.2 hkm)
    obtain ⟨r', hr', -, hs, ht⟩ := hedges.added k _ _
      ((List.getElem?_eq_getElem hkm).trans (congrArg some hp))
    rw [← hk.1, hr] at hr'
    cases hr'
    have h₁ := hdirected.1
    have h₂ := hdirected.2
    omega

end Clause

/-- For a row that `CREATE` goes through for, it adds what the clause asks for
exactly if the clause is covered. -/
theorem create_adds_pattern_iff {paths : List PathPattern} (hfresh : Fresh g)
    (h : executeCreate x (createPattern (paths.map (·.namedPattern))) row g =
      .ok (.ok row', g')) :
    CreatesExactly paths row g g' ↔ CreateCovered row paths := by
  obtain ⟨g₁, hnodes, hedges⟩ := executeCreate_ok h
  exact ⟨fun hx => hx.covered hfresh hnodes hedges,
    fun hc => hc.createsExactly hfresh hnodes hedges⟩

/-- A graph of one node. -/
def oneNode : GraphStore :=
  { GraphStore.init with
    nodes := (∅ : Std.ExtTreeMap Nat StoredNode).insert 1 ⟨0, false, []⟩
    nextId := 2 }

theorem fresh_oneNode : Fresh oneNode := by
  intro id hid
  have hne : id ≠ 1 := by
    rintro rfl
    exact absurd hid (by decide)
  constructor
  · refine (getElem?_insert_eq ∅ 1 id _).trans ?_
    rw [if_neg hne]
    rfl
  · rfl

/-- `(a)-[:KNOWS]->(b)` -/
def knowsPath : PathPattern where
  name := none
  first := ⟨some "a", [], []⟩
  hops := [(⟨.outgoing, ["KNOWS"], none, [], .fixed 1⟩, ⟨some "b", [], []⟩)]

theorem create_adds_pattern_knows : CreateCovered ∅ [knowsPath] ∧ ∃ row' g',
      executeCreate bareContext (createPattern
        ([knowsPath].map (·.namedPattern))) ∅ oneNode = .ok (.ok row', g') ∧
      CreatesExactly [knowsPath] ∅ oneNode g' := by
  have hc : CreateCovered ∅ [knowsPath] := by
    refine ⟨⟨fun _ _ _ _ => rfl, by decide⟩, ?_, ?_, ?_⟩
    · intro t ht
      cases mem_singleton.mp ht
      exact ⟨rfl, rfl⟩
    · exact pairwise_singleton _ _
    · intro t ht
      cases mem_singleton.mp ht
      exact nofun
  have hrun : ∃ row' g', executeCreate bareContext (createPattern
      ([knowsPath].map (·.namedPattern))) ∅ oneNode =
        .ok (.ok row', g') := ⟨_, _, rfl⟩
  obtain ⟨row', g', h⟩ := hrun
  exact ⟨hc, row', g', h, (create_adds_pattern_iff fresh_oneNode h).mpr hc⟩

/-- `CREATE (a)-[:KNOWS]->(b)` in a row that has `a` makes two nodes. -/
theorem create_duplicates_bound_node : ∃ row' g',
    executeCreate bareContext (createPattern ([knowsPath].map (·.namedPattern)))
      ((∅ : Row).insert "a" (.node ⟨1, [], []⟩)) oneNode = .ok (.ok row', g') ∧
    ¬CreatesExactly [knowsPath] ((∅ : Row).insert "a" (.node ⟨1, [], []⟩)) oneNode g' := by
  have hrun : ∃ row' g', executeCreate bareContext (createPattern
      ([knowsPath].map (·.namedPattern)))
      ((∅ : Row).insert "a" (.node ⟨1, [], []⟩)) oneNode =
        .ok (.ok row', g') := ⟨_, _, rfl⟩
  obtain ⟨row', g', h⟩ := hrun
  refine ⟨row', g', h, fun hx => ?_⟩
  obtain ⟨g₁, hnodes, hedges⟩ := executeCreate_ok h
  have hnew := (hx.covered fresh_oneNode hnodes hedges).allNew
  have := hnew.1 ⟨some "a", [], []⟩ (by simp [nodeElements, knowsPath]) "a" rfl
  simp at this

end RGraph.Cypher
