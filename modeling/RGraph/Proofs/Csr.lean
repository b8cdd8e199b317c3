import RGraph.Graph.Csr

/-!
# What a CSR snapshot lists

With the edges sorted by source, the cursor of a source stands, whenever one of
its edges comes, at the number of edges before it. So the three columns are the
sorted list itself, and the row of a node is the part of it with that source:
as many entries lie before it as there are edges with a smaller source, which
is what the counts add up to.

The last node id is different. One added to it is zero, which is below the
length of every table, and reading its row is out of range.
-/

namespace RGraph.Graph

open RGraph.Lib CsrBuilder
open List hiding rec

/-! ## Sorted lists -/

section Sorted

variable {α : Type} {f : α → Nat}

/-- In a sorted list what lies below a value stands in front. -/
theorem take_countP_lt (v : Nat) : ∀ {l : List α},
    l.Pairwise (f · ≤ f ·) →
    l.take (l.countP (f · < v)) = l.filter (f · < v) ∧
      l.drop (l.countP (f · < v)) = l.filter (v ≤ f ·)
  | [], _ => ⟨rfl, rfl⟩
  | a :: l, h => by
    obtain ⟨ha, hl⟩ := pairwise_cons.mp h
    by_cases hv : f a < v
    · have ih := take_countP_lt v hl
      simp [hv, Nat.not_le.mpr hv, ih]
    · have hle : ∀ x ∈ l, v ≤ f x := fun x hx =>
        Nat.le_trans (Nat.not_lt.mp hv) (ha x hx)
      have hzero : (a :: l).countP (f · < v) = 0 := by
        rw [countP_eq_zero]
        intro x hx
        rcases mem_cons.mp hx with rfl | hx
        · simpa using hv
        · simpa using hle x hx
      rw [hzero, take_zero, drop_zero, eq_comm, filter_eq_nil_iff, eq_comm, filter_eq_self]
      exact ⟨countP_eq_zero.mp hzero, fun x hx => by
        rcases mem_cons.mp hx with rfl | hx
        · simpa using hv
        · simpa using hle x hx⟩

theorem countP_lt_succ (l : List α) (v : Nat) :
    l.countP (f · < v + 1) = l.countP (f · < v) + l.countP (f · = v) := by
  induction l with
  | nil => rfl
  | cons a l ih =>
    simp only [countP_cons, ih, decide_eq_true_eq]
    split <;> split <;> split <;> omega

/-- The part of a sorted list that has one value. -/
theorem take_drop_countP {l : List α} (h : l.Pairwise (f · ≤ f ·)) (v : Nat) :
    (l.drop (l.countP (f · < v))).take (l.countP (f · = v)) = l.filter (f · = v) := by
  have heq : ∀ x, (decide (f x < v + 1) && decide (v ≤ f x)) = decide (f x = v) := by
    intro x
    rw [← Bool.decide_and]
    exact decide_eq_decide.mpr (by omega)
  have hcount : (l.filter (v ≤ f ·)).countP (f · < v + 1) = l.countP (f · = v) := by
    rw [countP_filter]
    exact countP_congr fun x _ => by rw [heq]
  rw [(take_countP_lt v h).2, ← hcount, (take_countP_lt (v + 1) (h.filter _)).1, filter_filter]
  exact filter_congr fun x _ => heq x

end Sorted

/-! ## The row table -/

section Build

variable {E : List CsrEntry} {n : Nat}

/-- The number of edges with a smaller source. -/
def rowStart (E : List CsrEntry) (v : Nat) : Nat := E.countP (·.src < v)

theorem countDegrees_eq (n : Nat) (hlen : E.length < 2 ^ 32)
    (hsrc : ∀ e ∈ E, e.src + 1 < n) : countDegrees n E =
      (List.range' 0 n).map fun j => E.countP (·.src + 1 = j) := by
  suffices h : ∀ (F : List CsrEntry) (c : Nat → Nat),
      (∀ j, c j + F.length < 2 ^ 32) → (∀ e ∈ F, e.src + 1 < n) →
      F.foldl (fun row e =>
        if e.src + 1 < n then row.modify (e.src + 1) fun c => (c + 1) % 2 ^ 32
        else row) ((List.range' 0 n).map c) =
      (List.range' 0 n).map fun j => c j + F.countP (·.src + 1 = j) by
    have := h E (fun _ => 0) (by simpa using hlen) hsrc
    simpa [countDegrees, map_const'] using this
  intro F
  induction F with
  | nil => intro c _ _; simp
  | cons e F ih =>
    intro c hc hF
    have he := hF e mem_cons_self
    have hrow : ((List.range' 0 n).map c).modify (e.src + 1)
        (fun c => (c + 1) % 2 ^ 32) = (List.range' 0 n).map
          fun j => c j + if e.src + 1 = j then 1 else 0 := by
      apply ext_getElem?
      intro j
      rw [List.getElem?_modify, List.getElem?_map, List.getElem?_map]
      by_cases hj : j < n
      · rw [List.getElem?_range' hj, Nat.zero_add, Nat.one_mul]
        have := hc j
        rw [length_cons] at this
        by_cases hej : e.src + 1 = j
        · subst hej
          simp
          omega
        · simp [hej]
      · rw [List.getElem?_eq_none (by simpa using hj)]
        rfl
    rw [foldl_cons, if_pos he, hrow, ih _ ?_ fun x hx => hF x (mem_cons_of_mem _ hx)]
    · refine map_congr_left fun j _ => ?_
      rw [countP_cons]
      simp only [decide_eq_true_eq]
      omega
    · intro j
      have := hc j
      rw [length_cons] at this
      split <;> omega

theorem prefixSum_eq (hlen : E.length < 2 ^ 32) : ∀ (k a acc : Nat),
    acc = rowStart E (a - 1) → prefixSum acc ((List.range' a k).map fun j =>
      E.countP (·.src + 1 = j)) = (List.range' a k).map (rowStart E)
  | 0, _, _, _ => rfl
  | k + 1, a, acc, hacc => by
    have hsum : E.countP (·.src + 1 = a) + acc = rowStart E a := by
      subst hacc
      cases a with
      | zero => simp [rowStart]
      | succ a =>
        have := countP_lt_succ (f := CsrEntry.src) E a
        simp only [rowStart, Nat.add_right_cancel_iff, Nat.add_sub_cancel]
        omega
    have hle : rowStart E a ≤ E.length := countP_le_length
    rw [List.range'_succ, map_cons, prefixSum, hsum,
      Nat.mod_eq_of_lt (by omega), prefixSum_eq hlen k (a + 1) _ (by simp),
      map_cons]

theorem rowPtr_eq (hlen : E.length < 2 ^ 32) (hsrc : ∀ e ∈ E, e.src + 1 < n) :
    prefixSum 0 (countDegrees n E) = (List.range' 0 n).map (rowStart E) := by
  rw [countDegrees_eq n hlen hsrc, prefixSum_eq hlen n 0 0]
  simp [rowStart]

/-! ## The columns -/

/-- A column while the edges behind the first ones are still to come. -/
def column (g : CsrEntry → Nat) (P S : List CsrEntry) : List Nat :=
  P.map g ++ List.replicate S.length 0

theorem column_set (g : CsrEntry → Nat) (P S : List CsrEntry) (e : CsrEntry) :
    (column g P (e :: S)).set P.length (g e) = column g (P ++ [e]) S := by
  rw [column, column, set_append_right _ _ (by simp)]
  simp [replicate_succ]

/-- The cursors after the first edges. -/
def cursors (n : Nat) (E P : List CsrEntry) : List Nat :=
  (List.range' 0 n).map fun v => rowStart E v + P.countP (·.src = v)

/-- The cursor of the next edge. -/
theorem cursor_eq {P S : List CsrEntry} {e : CsrEntry}
    (h : (P ++ e :: S).Pairwise (·.src ≤ ·.src)) :
    rowStart (P ++ e :: S) e.src + P.countP (·.src = e.src) = P.length := by
  obtain ⟨-, hS, hP⟩ := pairwise_append.mp h
  have hzero : (e :: S).countP (·.src < e.src) = 0 := by
    rw [countP_eq_zero]
    intro x hx
    rcases mem_cons.mp hx with rfl | hx
    · simp
    · simpa using rel_of_pairwise_cons hS hx
  have hall : P.countP (·.src < e.src + 1) = P.length := by
    rw [countP_eq_length]
    intro x hx
    exact decide_eq_true (Nat.lt_succ_of_le (hP x hx e mem_cons_self))
  have := countP_lt_succ (f := CsrEntry.src) P e.src
  rw [rowStart, countP_append, hzero]
  omega

theorem foldlM_place (row : List Nat) (m : Nat) (hlen : E.length < 2 ^ 32)
    (hsort : E.Pairwise (·.src ≤ ·.src)) (hsrc : ∀ e ∈ E, e.src + 1 < n) :
    ∀ {S P : List CsrEntry}, P ++ S = E → S.foldlM place (cursors n E P,
      ⟨row, column (·.dst) P S, column (·.edgeId) P S, column (·.typeId) P S, m⟩) =
    .ok (cursors n E E, ⟨row, E.map (·.dst), E.map (·.edgeId), E.map (·.typeId), m⟩)
  | [], P, h => by
    rw [append_nil] at h
    subst h
    simp [column, pure, Except.pure]
  | e :: S, P, h => by
    have he : e.src + 1 < n := hsrc e (by simp [← h])
    have hpos : (cursors n E P)[e.src]? = some P.length := by
      rw [cursors, List.getElem?_map, List.getElem?_range' (by omega),
        Nat.zero_add, Nat.one_mul, Option.map_some, ← h, cursor_eq (h ▸ hsort)]
    have hnext : (cursors n E P).set e.src ((P.length + 1) % 2 ^ 32) =
        cursors n E (P ++ [e]) := by
      have hP : P.length + 1 ≤ E.length := by simp [← h]
      apply ext_getElem?
      intro j
      rw [List.getElem?_set]
      by_cases hj : e.src = j
      · subst hj
        rw [if_pos rfl, if_pos (by simp [cursors]; omega), cursors,
          List.getElem?_map, List.getElem?_range' (by omega),
          Nat.mod_eq_of_lt (by omega)]
        have := cursor_eq (h ▸ hsort)
        rw [h] at this
        simp [← this, Nat.add_assoc]
      · rw [if_neg hj, cursors, cursors, List.getElem?_map, List.getElem?_map]
        by_cases hn : j < n
        · simp [List.getElem?_range' hn, countP_cons, hj]
        · rw [List.getElem?_eq_none (by simpa using hn)]
          rfl
    have hstep : place (cursors n E P, ⟨row, column (·.dst) P (e :: S),
        column (·.edgeId) P (e :: S), column (·.typeId) P (e :: S), m⟩) e =
        .ok (cursors n E (P ++ [e]), ⟨row, column (·.dst) (P ++ [e]) S,
          column (·.edgeId) (P ++ [e]) S, column (·.typeId) (P ++ [e]) S,
          m⟩) := by
      simp only [place, hpos, Res.unwrap, Res.ok_bind, hnext]
      rw [if_pos (by simp [column]), column_set, column_set, column_set]
      rfl
    rw [foldlM_cons, hstep]
    exact foldlM_place row m hlen hsort hsrc (by simpa using h)

/-- The snapshot that `build` makes of a sorted list. -/
def snapshotOf (E : List CsrEntry) (n m : Nat) : CsrAdjacency :=
  ⟨(List.range' 0 n).map (rowStart E), E.map (·.dst), E.map (·.edgeId), E.map (·.typeId), m⟩

theorem build_eq {b : CsrBuilder} (hal : b.Allocates)
    (hlen : E.length < 2 ^ 32) (hsort : E.Pairwise (·.src ≤ ·.src))
    (hsrc : ∀ e ∈ E, e.src + 1 < b.rows) : b.build E = .ok (snapshotOf E b.rows b.maxNodeId) := by
  rw [build, if_pos hal, rowPtr_eq hlen hsrc]
  have h := foldlM_place ((List.range' 0 b.rows).map (rowStart E)) b.maxNodeId
    hlen hsort hsrc (P := []) (S := E) rfl
  simp only [column, map_nil, nil_append, cursors, countP_nil, Nat.add_zero] at h
  dsimp only
  rw [h]
  rfl

end Build

/-! ## The answers -/

section Answers

variable {E : List CsrEntry} {n m : Nat} {v : UInt64}

theorem mapM_edgeAt : ∀ {k i : Nat}, i + k ≤ E.length →
    (List.range' i k).mapM (snapshotOf E n m).edgeAt =
      .ok (((E.drop i).take k).map CsrEntry.edge)
  | 0, _, _ => by simp [pure, Except.pure]
  | k + 1, i, h => by
    have hi : i < E.length := by omega
    have hat : (snapshotOf E n m).edgeAt i = .ok E[i].edge := by
      simp only [snapshotOf, CsrAdjacency.edgeAt, List.getElem?_map, List.getElem?_eq_getElem hi]
      rfl
    rw [List.range'_succ, mapM_cons, hat, Res.ok_bind,
      mapM_edgeAt (by omega), drop_eq_getElem_cons hi]
    rfl

theorem bounds_eq (hv : v.toNat ≠ 2 ^ 64 - 1) :
    (snapshotOf E n m).bounds v = .ok (if v.toNat + 1 < n then
      (rowStart E v.toNat, rowStart E (v.toNat + 1)) else (0, 0)) := by
  have := v.toNat_lt
  rw [CsrAdjacency.bounds, Nat.mod_eq_of_lt (by omega)]
  simp only [snapshotOf, length_map, length_range']
  split
  · next hlt =>
      rw [List.getElem?_map, List.getElem?_map, List.getElem?_range' hlt,
        List.getElem?_range' (Nat.lt_of_succ_lt hlt)]
      simp [Res.unwrap, Nat.add_comm]
  · rfl

/-- Reading the row of the last id is out of range. -/
theorem bounds_last (hn : 0 < n) (hlt : n < 2 ^ 64) (hv : v.toNat = 2 ^ 64 - 1) :
    (snapshotOf E n m).bounds v = .error .panic := by
  rw [CsrAdjacency.bounds, hv, if_pos (by simpa [snapshotOf] using hn), snapshotOf,
    List.getElem?_eq_none (by simp; omega)]
  rfl

theorem outgoingEdges_eq (hsort : E.Pairwise (·.src ≤ ·.src))
    (hlen : E.length < 2 ^ 32) (hsrc : ∀ e ∈ E, e.src + 1 < n) (hv : v.toNat ≠ 2 ^ 64 - 1) :
    (snapshotOf E n m).outgoingEdges v = .ok ((E.filter (·.src = v.toNat)).map CsrEntry.edge) ∧
      (snapshotOf E n m).outDegree v = .ok (E.filter (·.src = v.toNat)).length := by
  rw [CsrAdjacency.outgoingEdges, CsrAdjacency.outDegree, bounds_eq hv, Res.ok_bind, Res.ok_bind]
  have hsucc := countP_lt_succ (f := CsrEntry.src) E v.toNat
  have hle : E.countP (·.src < v.toNat + 1) ≤ E.length := countP_le_length
  by_cases hlt : v.toNat + 1 < n
  · have hrow := take_drop_countP (f := CsrEntry.src) hsort v.toNat
    simp only [if_pos hlt, rowStart]
    rw [mapM_edgeAt (by omega), hsucc, Nat.add_sub_cancel_left, hrow]
    refine ⟨rfl, ?_⟩
    rw [show E.countP (·.src < v.toNat) + E.countP (·.src = v.toNat) + 2 ^ 32 -
        E.countP (·.src < v.toNat) = E.countP (·.src = v.toNat) + 2 ^ 32 by
      omega, Nat.add_mod_right, Nat.mod_eq_of_lt (by omega),
      countP_eq_length_filter]
    rfl
  · have hnil : E.filter (·.src = v.toNat) = [] := by
      rw [filter_eq_nil_iff]
      intro e he hsv
      exact hlt (of_decide_eq_true hsv ▸ hsrc e he)
    rw [if_neg hlt, hnil]
    exact ⟨rfl, rfl⟩

end Answers

/-! ## The builder -/

/-- The edges that are not deleted. -/
def liveEdges (rs : List CsrRecord) : List EdgeRecord :=
  rs.filterMap fun r => match r with
    | .edge rec => if rec.isDeleted then none else some rec
    | .node _ => none

theorem ofRecords_spec (rs : List CsrRecord) :
    (ofRecords rs).edges = (liveEdges rs).map CsrEntry.ofRecord ∧
      ∀ e ∈ (ofRecords rs).edges, e.src ≤ (ofRecords rs).maxNodeId := by
  suffices h : ∀ b : CsrBuilder, (∀ e ∈ b.edges, e.src ≤ b.maxNodeId) →
      (rs.foldl add b).edges = b.edges ++ (liveEdges rs).map .ofRecord ∧
        ∀ e ∈ (rs.foldl add b).edges, e.src ≤ (rs.foldl add b).maxNodeId by
    simpa [ofRecords, CsrBuilder.new] using h .new (by simp [CsrBuilder.new])
  induction rs with
  | nil => intro b hb; exact ⟨by simp [liveEdges], hb⟩
  | cons r rs ih =>
    intro b hb
    cases r with
    | node rec => exact ih (b.addNode rec) fun e he => Nat.le_trans (hb e he) (Nat.le_max_left _ _)
    | edge rec =>
      rw [foldl_cons, add, addEdge]
      by_cases hdel : rec.isDeleted
      · rw [if_pos hdel, liveEdges, filterMap_cons_none (by simp [hdel])]
        exact ih b hb
      · rw [if_neg hdel, liveEdges, filterMap_cons_some (b := rec) (by simp [hdel])]
        refine (ih _ fun e he => ?_).imp_left fun h => by
          rw [h]
          simp [liveEdges]
        rcases mem_append.mp he with he | he
        · exact Nat.le_trans (hb e he) (by dsimp only; omega)
        · rw [mem_singleton.mp he]
          dsimp only
          omega

/-- The edges of one source, sorted by target and edge id. -/
structure Lists (rs : List CsrRecord) (v : UInt64) (es : List CsrEdge) :
    Prop where
  perm : es.Perm (((liveEdges rs).filter (·.sourceId = v)).map fun rec =>
    (CsrEntry.ofRecord rec).edge)
  sorted : es.Pairwise fun a b =>
    a.targetId < b.targetId ∨ a.targetId = b.targetId ∧ a.edgeId ≤ b.edgeId

/-- The snapshot is built, and it lists and counts the edges of `v`. -/
def Answers (rs : List CsrRecord) (sorted : List CsrEntry) (v : UInt64) : Prop :=
  ∃ c es, (ofRecords rs).build sorted = .ok c ∧ c.outgoingEdges v = .ok es ∧
    Lists rs v es ∧ c.outDegree v = .ok es.length

theorem lists_filter {rs : List CsrRecord} {E : List CsrEntry}
    (hE : (ofRecords rs).Sorts E) (v : UInt64) :
    Lists rs v ((E.filter (·.src = v.toNat)).map CsrEntry.edge) where
  perm := by
    refine ((hE.1.filter _).map _).trans (.of_eq ?_)
    rw [(ofRecords_spec rs).1, filter_map, map_map]
    refine congrArg _ (filter_congr fun rec _ => ?_)
    exact decide_eq_decide.mpr (UInt64.toNat_inj)
  sorted := by
    rw [pairwise_map]
    refine (hE.2.filter _).imp_of_mem fun {a b} ha hb h => ?_
    have ha := of_decide_eq_true (mem_filter.mp ha).2
    have hb := of_decide_eq_true (mem_filter.mp hb).2
    rcases h with h | ⟨-, h⟩
    · omega
    · exact h

theorem csr_lists_edges_iff {rs : List CsrRecord} {sorted : List CsrEntry}
    (hlen : (liveEdges rs).length < 2 ^ 32) (hal : (ofRecords rs).Allocates)
    (hsort : (ofRecords rs).Sorts sorted) (v : UInt64) :
    Answers rs sorted v ↔ v.toNat ≠ 2 ^ 64 - 1 := by
  obtain ⟨hedges, hmax⟩ := ofRecords_spec rs
  have hlen' : sorted.length < 2 ^ 32 := by
    rw [hsort.1.length_eq, hedges, length_map]
    exact hlen
  have hle : sorted.Pairwise (·.src ≤ ·.src) := by
    refine hsort.2.imp fun h => ?_
    rcases h with h | ⟨h, -⟩ <;> omega
  have hrows : (ofRecords rs).rows = (ofRecords rs).maxNodeId + 2 := by
    rw [Allocates, rows] at hal
    rw [rows]
    omega
  have hsrc : ∀ e ∈ sorted, e.src + 1 < (ofRecords rs).rows := by
    intro e he
    have := hmax e (hsort.1.mem_iff.mp he)
    omega
  have hbuild := build_eq hal hlen' hle hsrc
  constructor
  · rintro ⟨c, es, hc, hout, -⟩ hv
    cases hbuild.symm.trans hc
    rw [Allocates] at hal
    rw [CsrAdjacency.outgoingEdges, bounds_last (by omega) (by omega) hv]
      at hout
    cases hout
  · intro hv
    obtain ⟨hout, hdeg⟩ := outgoingEdges_eq (m := (ofRecords rs).maxNodeId)
      hle hlen' hsrc hv
    exact ⟨_, _, hbuild, hout, lists_filter hsort v, by simpa using hdeg⟩

/-- One edge, from node 1 to node 2. -/
def oneEdge : List CsrRecord := [.edge (.new 7 3 1 2 .null .null)]

theorem csr_lists_edges_one :
    let rs : List CsrRecord := [.edge (.new 9 3 2 1 .null .null), .edge (.new 8 3 1 5 .null .null),
      .node (.new 6 4), .edge (.new 7 3 1 2 .null .null)]
    Answers rs [⟨1, 2, 7, 3⟩, ⟨1, 5, 8, 3⟩, ⟨2, 1, 9, 3⟩] 1 ∧
      Answers rs [⟨1, 2, 7, 3⟩, ⟨1, 5, 8, 3⟩, ⟨2, 1, 9, 3⟩] (.ofNat (2 ^ 64 - 2)) := by
  intro rs
  have hsort : (ofRecords rs).Sorts [⟨1, 2, 7, 3⟩, ⟨1, 5, 8, 3⟩, ⟨2, 1, 9, 3⟩] :=
    ⟨by decide +kernel, by simp [CsrEntry.KeyLe]⟩
  have hiff := csr_lists_edges_iff (by decide) (by decide +kernel) hsort
  exact ⟨(hiff 1).mpr (by decide), (hiff _).mpr (by decide)⟩

theorem csr_last_id_panics : ¬ ∀ (rs : List CsrRecord) (sorted : List CsrEntry) (v : UInt64),
      (liveEdges rs).length < 2 ^ 32 → (ofRecords rs).Allocates →
      (ofRecords rs).Sorts sorted → Answers rs sorted v := by
  intro hall
  obtain ⟨c, es, hc, hout, -⟩ := hall oneEdge [⟨1, 2, 7, 3⟩] (.ofNat (2 ^ 64 - 1))
    (by decide) (by decide +kernel)
    ⟨by decide +kernel, pairwise_singleton ..⟩
  have h : ((ofRecords oneEdge).build [⟨1, 2, 7, 3⟩] >>=
      (·.outgoingEdges (.ofNat (2 ^ 64 - 1)))) = .error .panic := by
    decide +kernel
  rw [hc] at h
  cases hout.symm.trans h

end RGraph.Graph
