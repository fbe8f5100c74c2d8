import Mathlib.Data.List.Nodup
import Mathlib.Data.List.Shortlex
import Packrat.Proofs.Traversal

/-!
# Traversals by paths

Two parts of a tree may be equal, so a traversal is told by the paths to the nodes it meets. `Lists`
says that a list holds the nodes of some paths, each path once and in an order of paths: the order of
reading is that of dictionaries, where a path comes before those that go on from it (`lists_depthFirst`).
Level by level shorter paths come first (`lists_breadthFirst`).
-/

namespace Packrat.Node

variable {closed : Node → Bool} {n m : Node} {i : Nat} {p : List Nat}

/-! ## Paths -/

/-- The path leads from `n` to `m` and past no closed node. -/
def Reaches (closed : Node → Bool) (n : Node) (p : List Nat) (m : Node) : Prop :=
  n.descend? p = some m ∧ ∀ q c, q <+: p → q ≠ p → n.descend? q = some c → closed c = false

theorem descend?_cons_iff : n.descend? (i :: p) = some m ↔ ∃ c, n.children[i]? = some c ∧ c.descend? p = some m := by
  rw [descend?]
  exact Option.bind_eq_some_iff

theorem reaches_nil_iff : n.Reaches closed [] m ↔ n = m := by
  unfold Reaches
  constructor
  · rintro ⟨h, -⟩
    exact Option.some.inj h
  · intro h
    exact ⟨congrArg some h, fun q c hq hne => absurd (List.prefix_nil.1 hq) hne⟩

theorem reaches_cons_iff : n.Reaches closed (i :: p) m ↔
    closed n = false ∧ ∃ c, n.children[i]? = some c ∧ c.Reaches closed p m := by
  unfold Reaches
  constructor
  · intro ⟨h, hopen⟩
    obtain ⟨c, hc, hm⟩ := descend?_cons_iff.1 h
    refine ⟨hopen [] n List.nil_prefix (by simp) rfl, c, hc, hm, fun q d hq hne hd => ?_⟩
    exact hopen (i :: q) d (List.cons_prefix_cons.2 ⟨rfl, hq⟩) (by simpa using hne) (descend?_cons_iff.2 ⟨c, hc, hd⟩)
  · intro ⟨hn, c, hc, hm, hopen⟩
    refine ⟨descend?_cons_iff.2 ⟨c, hc, hm⟩, fun q d hq hne hd => ?_⟩
    cases q with
    | nil => rwa [← Option.some.inj hd]
    | cons j q =>
      obtain ⟨rfl, hqp⟩ := List.cons_prefix_cons.1 hq
      obtain ⟨c', hc', hd⟩ := descend?_cons_iff.1 hd
      obtain rfl := Option.some.inj (hc.symm.trans hc')
      exact hopen q d hqp (by simpa using hne) hd

theorem reaches_open_iff : n.Reaches (fun _ => false) p m ↔ n.descend? p = some m :=
  and_iff_left fun _ _ _ _ _ => rfl

/-! ## Lists of paths -/

/-- The list holds the nodes of some paths, each path once and in the order `r`. -/
def Lists (r : List Nat → List Nat → Prop) (S : List Nat → Node → Prop) (ns : List Node) : Prop :=
  ∃ ps : List (List Nat × Node), ps.map Prod.snd = ns ∧ (ps.map Prod.fst).Pairwise r ∧ ∀ p m, (p, m) ∈ ps ↔ S p m

/-- The node of the first path of some, if there is any. -/
def FirstBy (r : List Nat → List Nat → Prop) (S : List Nat → Node → Prop) : Option Node → Prop
  | some m => ∃ p, S p m ∧ ∀ q c, S q c → q = p ∧ c = m ∨ r p q
  | none => ∀ p m, ¬ S p m

section
variable {r r' : List Nat → List Nat → Prop} {S S' : List Nat → Node → Prop} {ns ms : List Node}

theorem Lists.congr (h : Lists r S ns) (hS : ∀ p m, S p m ↔ S' p m) : Lists r S' ns := by
  obtain ⟨ps, hns, hr, hps⟩ := h
  exact ⟨ps, hns, hr, fun p m => (hps p m).trans (hS p m)⟩

theorem lists_nil (h : ∀ p m, ¬ S p m) : Lists r S [] :=
  ⟨[], rfl, .nil, fun p m => by simp [h]⟩

theorem Lists.append (h : Lists r S ns) (h' : Lists r S' ms) (hr : ∀ p m q c, S p m → S' q c → r p q) :
    Lists r (fun p m => S p m ∨ S' p m) (ns ++ ms) := by
  obtain ⟨ps, rfl, hps, hS⟩ := h
  obtain ⟨qs, rfl, hqs, hS'⟩ := h'
  refine ⟨ps ++ qs, List.map_append, ?_, fun p m => ?_⟩
  · rw [List.map_append, List.pairwise_append]
    refine ⟨hps, hqs, ?_⟩
    simp only [List.mem_map]
    rintro _ ⟨⟨p, m⟩, hp, rfl⟩ _ ⟨⟨q, c⟩, hq, rfl⟩
    exact hr p m q c ((hS p m).1 hp) ((hS' q c).1 hq)
  · rw [List.mem_append, hS, hS']

theorem Lists.filter (h : Lists r S ns) (f : Node → Bool) :
    Lists r (fun p m => S p m ∧ f m = true) (ns.filter f) := by
  obtain ⟨ps, rfl, hps, hS⟩ := h
  refine ⟨ps.filter fun x => f x.2, ?_, ?_, fun p m => ?_⟩
  · rw [List.filter_map]
    rfl
  · rw [List.pairwise_map] at hps ⊢
    exact hps.filter _
  · rw [List.mem_filter, hS]

theorem Lists.mem_iff (h : Lists r S ns) : m ∈ ns ↔ ∃ p, S p m := by
  obtain ⟨ps, rfl, -, hS⟩ := h
  simp [List.mem_map, ← hS]

theorem Lists.firstBy_head? (h : Lists r S ns) : FirstBy r S ns.head? := by
  obtain ⟨ps, rfl, hps, hS⟩ := h
  cases ps with
  | nil =>
    intro p m hm
    simpa using (hS p m).2 hm
  | cons x ps =>
    rw [List.map_cons, List.pairwise_cons] at hps
    refine ⟨x.1, (hS x.1 x.2).1 List.mem_cons_self, fun q c hq => ?_⟩
    obtain rfl | hq := List.mem_cons.1 ((hS q c).2 hq)
    · exact .inl ⟨rfl, rfl⟩
    · exact .inr (hps.1 q (List.mem_map.2 ⟨(q, c), hq, rfl⟩))

theorem Lists.firstBy_find? (h : Lists r S ns) (f : Node → Bool) :
    FirstBy r (fun p m => S p m ∧ f m = true) (ns.find? f) := by
  rw [← List.head?_filter]
  exact (h.filter f).firstBy_head?

theorem nodup_of_pairwise [Std.Irrefl r] {ps : List (List Nat × Node)} (h : (ps.map Prod.fst).Pairwise r) :
    ps.Nodup := by
  refine List.Nodup.of_map Prod.fst (h.imp fun {p q} hpq he => ?_)
  rw [he] at hpq
  exact Std.Irrefl.irrefl q hpq

/-- Two orders of the same paths. -/
theorem Lists.perm [Std.Irrefl r] [Std.Irrefl r'] (h : Lists r S ns) (h' : Lists r' S ms) : ns.Perm ms := by
  obtain ⟨ps, rfl, hps, hS⟩ := h
  obtain ⟨qs, rfl, hqs, hS'⟩ := h'
  have hps' : ps.Nodup := nodup_of_pairwise hps
  have hqs' : qs.Nodup := nodup_of_pairwise hqs
  refine List.Perm.map _ ((List.perm_ext_iff_of_nodup hps' hqs').2 fun x => ?_)
  rw [hS x.1 x.2, hS' x.1 x.2]

end

/-! ## The order of reading -/

theorem depthFirst_singleton (closed : Node → Bool) (n : Node) : depthFirst closed [n] =
    n :: if closed n then [] else n.children.flatMap fun c => depthFirst closed [c] := by
  rw [depthFirst]
  split
  · rw [depthFirst]
  · rw [List.append_nil, depthFirst_eq_flatMap]

theorem pairwise_zipIdx (cs : List Node) : cs.zipIdx.Pairwise fun x y => x.2 < y.2 := by
  rw [← List.pairwise_map, List.zipIdx_map_snd]
  exact List.pairwise_lt_range'

/-- What is listed below each of the nodes, listed below all of them. -/
theorem lists_flatMap {S : Node → List Nat → Node → Prop} {L : Node → List Node} {cs : List Node}
    (h : ∀ c ∈ cs, Lists (· < ·) (S c) (L c)) :
    Lists (· < ·) (fun p m => ∃ i q c, p = i :: q ∧ cs[i]? = some c ∧ S c q m) (cs.flatMap L) := by
  choose! ps hL hps hS using h
  have hmem : ∀ x ∈ cs.zipIdx, x.1 ∈ cs := fun x hx => List.mem_of_getElem? (List.mem_zipIdx_iff_getElem?.1 hx)
  refine ⟨cs.zipIdx.flatMap fun x => (ps x.1).map fun y => (x.2 :: y.1, y.2), ?_, ?_, fun p m => ?_⟩
  · rw [List.map_flatMap]
    simp only [List.map_map]
    calc cs.zipIdx.flatMap (fun x => (ps x.1).map fun y => y.2)
      _ = cs.zipIdx.flatMap fun x => L x.1 := List.flatMap_congr fun x hx => hL x.1 (hmem x hx)
      _ = cs.flatMap L := by rw [← List.flatMap_map, List.zipIdx_map_fst]
  · rw [List.pairwise_map, List.pairwise_flatMap]
    refine ⟨fun x hx => ?_, (pairwise_zipIdx cs).imp fun hlt => ?_⟩
    · have hx' := hps x.1 (hmem x hx)
      rw [List.pairwise_map] at hx' ⊢
      exact hx'.imp fun hlt => .cons hlt
    · simp only [List.mem_map]
      rintro _ ⟨y, -, rfl⟩ _ ⟨z, -, rfl⟩
      exact .rel hlt
  · simp only [List.mem_flatMap, List.mem_map, List.mem_zipIdx_iff_getElem?, Prod.mk.injEq]
    constructor
    · rintro ⟨⟨c, i⟩, hc, ⟨q, m⟩, hq, rfl, rfl⟩
      exact ⟨i, q, c, rfl, hc, (hS c (List.mem_of_getElem? hc) q m).1 hq⟩
    · rintro ⟨i, q, c, rfl, hc, hq⟩
      exact ⟨(c, i), hc, (q, m), (hS c (List.mem_of_getElem? hc) q m).2 hq, rfl, rfl⟩

theorem lists_depthFirst (closed : Node → Bool) (n : Node) :
    Lists (· < ·) (n.Reaches closed) (depthFirst closed [n]) := by
  induction hs : n.size using Nat.strongRecOn generalizing n with
  | ind size ih =>
    subst hs
    have hself : Lists (· < ·) (fun p m => p = [] ∧ n = m) [n] :=
      ⟨[([], n)], rfl, List.pairwise_singleton _ _, fun p m => by simp [eq_comm]⟩
    have hinner : Lists (· < ·) (fun p m => closed n = false ∧ ∃ i q c, p = i :: q ∧ n.children[i]? = some c ∧
        c.Reaches closed q m) (if closed n then [] else n.children.flatMap fun c => depthFirst closed [c]) := by
      by_cases hn : closed n = true
      · rw [if_pos hn]
        exact lists_nil fun p m h => by simp [hn] at h
      · rw [if_neg hn]
        refine (lists_flatMap fun c hc => ih c.size (size_lt_of_mem_children hc) c rfl).congr fun p m => ?_
        simp [hn]
    rw [depthFirst_singleton]
    refine (hself.append hinner fun p m q c hp hq => ?_).congr fun p m => ?_
    · obtain ⟨rfl, -⟩ := hp
      obtain ⟨-, i, q, d, rfl, -⟩ := hq
      exact .nil
    · cases p with
      | nil => simp [reaches_nil_iff]
      | cons i p => simp [reaches_cons_iff]

/-! ## Level by level -/

/-- The children that a traversal goes on with. -/
def inner (closed : Node → Bool) (n : Node) : List Node := if closed n then [] else n.children

theorem breadthFirst_append (closed : Node → Bool) (ns ms : List Node) :
    breadthFirst closed (ns ++ ms) = ns ++ breadthFirst closed (ms ++ ns.flatMap (inner closed)) := by
  induction ns generalizing ms with
  | nil => simp
  | cons n ns ih =>
    have hqueue : (if closed n then ns ++ ms else ns ++ ms ++ n.children) = ns ++ (ms ++ n.inner closed) := by
      unfold inner
      split <;> simp
    rw [List.cons_append, breadthFirst, hqueue, ih, List.flatMap_cons, List.append_assoc, List.cons_append]

theorem totalSize_flatMap_inner (closed : Node → Bool) (ns : List Node) :
    totalSize (ns.flatMap (inner closed)) + ns.length ≤ totalSize ns := by
  induction ns with
  | nil => simp [totalSize]
  | cons n ns ih =>
    have hn : totalSize (n.inner closed) + 1 ≤ n.size := by
      rw [size_eq]
      unfold inner
      split
      · simp [totalSize]
      · omega
    rw [List.flatMap_cons, totalSize_append, totalSize, List.length_cons]
    omega

/-- The next level behind nodes with their paths. -/
def nextLevel (closed : Node → Bool) (ps : List (List Nat × Node)) : List (List Nat × Node) :=
  ps.flatMap fun x => (x.2.inner closed).zipIdx.map fun y => (x.1 ++ [y.2], y.1)

section
variable {ps : List (List Nat × Node)} {k : Nat}

theorem mem_nextLevel_iff : (p, m) ∈ nextLevel closed ps ↔ ∃ x ∈ ps, ∃ i, p = x.1 ++ [i] ∧ closed x.2 = false ∧
    x.2.children[i]? = some m := by
  unfold nextLevel inner
  simp only [List.mem_flatMap, List.mem_map, List.mem_zipIdx_iff_getElem?, Prod.mk.injEq]
  refine exists_congr fun x => and_congr_right fun _ => ?_
  by_cases hx : closed x.2 = true
  · simp [hx]
  · simp [hx]
    constructor
    · rintro ⟨i, hi, rfl⟩
      exact ⟨i, rfl, hi⟩
    · rintro ⟨i, rfl, hi⟩
      exact ⟨i, hi, rfl⟩

theorem map_snd_nextLevel : (nextLevel closed ps).map Prod.snd = (ps.map Prod.snd).flatMap (inner closed) := by
  unfold nextLevel
  rw [List.map_flatMap, List.flatMap_map]
  refine List.flatMap_congr fun x _ => ?_
  rw [List.map_map]
  exact List.zipIdx_map_fst 0 _

theorem lex_append {s t u v : List Nat} (h : List.Lex (· < ·) s t) (hl : s.length = t.length) :
    List.Lex (· < ·) (s ++ u) (t ++ v) := by
  induction h with
  | nil => cases hl
  | rel h => exact .rel h
  | cons _ ih => exact .cons (ih (by simpa using hl))

theorem shortlex_append {s t u v : List Nat} (h : List.Shortlex (· < ·) s t) (hu : u.length = v.length) :
    List.Shortlex (· < ·) (s ++ u) (t ++ v) := by
  obtain hlt | ⟨hl, hlex⟩ := List.shortlex_def.1 h
  · exact .of_length_lt (by simp only [List.length_append]; omega)
  · exact .of_lex (by simp only [List.length_append]; omega) (lex_append hlex hl)

theorem pairwise_nextLevel (h : (ps.map Prod.fst).Pairwise (List.Shortlex (· < ·))) :
    ((nextLevel closed ps).map Prod.fst).Pairwise (List.Shortlex (· < ·)) := by
  unfold nextLevel
  rw [List.pairwise_map] at h ⊢
  rw [List.pairwise_flatMap]
  refine ⟨fun x _ => ?_, h.imp fun hlt => ?_⟩
  · rw [List.pairwise_map]
    exact (pairwise_zipIdx _).imp fun hlt => .append_left ((List.shortlex_singleton_iff _ _).2 hlt) _
  · simp only [List.mem_map]
    rintro _ ⟨y, -, rfl⟩ _ ⟨z, -, rfl⟩
    exact shortlex_append hlt rfl

/-- The queue holds one level and then the next one, so it empties level by level. -/
theorem lists_breadthFirst (closed : Node → Bool) (hk : ∀ x ∈ ps, x.1.length = k) (h : (ps.map Prod.fst).Pairwise (List.Shortlex (· < ·))) :
    Lists (List.Shortlex (· < ·)) (fun p m => ∃ x ∈ ps, ∃ q, p = x.1 ++ q ∧ x.2.Reaches closed q m)
      (breadthFirst closed (ps.map Prod.snd)) := by
  induction hs : totalSize (ps.map Prod.snd) using Nat.strongRecOn generalizing ps k with
  | ind size ih =>
    subst hs
    by_cases hnil : ps = []
    · subst hnil
      rw [List.map_nil, breadthFirst]
      exact lists_nil fun p m h => by simp at h
    · have hlength : ∀ x ∈ nextLevel closed ps, x.1.length = k + 1 := by
        intro x hx
        obtain ⟨y, hy, i, hp, -⟩ := mem_nextLevel_iff.1 hx
        rw [hp, List.length_append, hk y hy, List.length_singleton]
      have hsize : totalSize ((nextLevel closed ps).map Prod.snd) < totalSize (ps.map Prod.snd) := by
        have hle := totalSize_flatMap_inner closed (ps.map Prod.snd)
        have hpos := List.length_pos_of_ne_nil hnil
        rw [List.length_map] at hle
        rw [map_snd_nextLevel]
        omega
      have hlevel : Lists (List.Shortlex (· < ·)) (fun p m => (p, m) ∈ ps) (ps.map Prod.snd) :=
        ⟨ps, rfl, h, fun _ _ => Iff.rfl⟩
      have hrest := ih _ hsize hlength (pairwise_nextLevel h) rfl
      rw [← List.append_nil (ps.map Prod.snd), breadthFirst_append, List.nil_append, ← map_snd_nextLevel]
      refine (hlevel.append hrest fun p m q c hp hq => ?_).congr fun p m => ?_
      · -- whatever comes later is at a longer path
        obtain ⟨x, hx, q, rfl, -⟩ := hq
        have hlp := hk _ hp
        have hlx := hlength x hx
        exact .of_length_lt (by simp only [List.length_append] at *; omega)
      · constructor
        · rintro (hp | ⟨⟨p', n⟩, hx, q, rfl, hq⟩)
          · exact ⟨(p, m), hp, [], (List.append_nil p).symm, reaches_nil_iff.2 rfl⟩
          · obtain ⟨x, hx', i, rfl, hn, hi⟩ := mem_nextLevel_iff.1 hx
            exact ⟨x, hx', i :: q, by simp, reaches_cons_iff.2 ⟨hn, n, hi, hq⟩⟩
        · rintro ⟨x, hx, q, rfl, hq⟩
          cases q with
          | nil =>
            obtain rfl := reaches_nil_iff.1 hq
            exact .inl (by simpa using hx)
          | cons i q =>
            obtain ⟨hn, c, hi, hq⟩ := reaches_cons_iff.1 hq
            exact .inr ⟨(x.1 ++ [i], c), mem_nextLevel_iff.2 ⟨x, hx, i, rfl, hn, hi⟩, q, by simp, hq⟩

end

/-! ## Nodes that carry a value -/

section
variable {t : ValueType}

/-- The path leads to a node that carries a `t`, and past no other such node. -/
def Topmost (n : Node) (t : ValueType) (p : List Nat) (m : Node) : Prop :=
  n.Reaches (·.carries t) p m ∧ m.carries t = true

/-- The path leads to a node strictly below `n` that carries a `t`, and there is no such node strictly
between the two. -/
def Frontier (n : Node) (t : ValueType) (p : List Nat) (m : Node) : Prop :=
  p ≠ [] ∧ n.descend? p = some m ∧ m.carries t = true ∧
    ∀ q c, q <+: p → q ≠ [] → q ≠ p → n.descend? q = some c → c.carries t = false

theorem frontier_cons_iff : n.Frontier t (i :: p) m ↔ ∃ c, n.children[i]? = some c ∧ c.Topmost t p m := by
  unfold Frontier Topmost Reaches
  constructor
  · rintro ⟨-, h, hm, hopen⟩
    obtain ⟨c, hc, hp⟩ := descend?_cons_iff.1 h
    refine ⟨c, hc, ⟨hp, fun q d hq hne hd => ?_⟩, hm⟩
    exact hopen (i :: q) d (List.cons_prefix_cons.2 ⟨rfl, hq⟩) (by simp) (by simpa using hne)
      (descend?_cons_iff.2 ⟨c, hc, hd⟩)
  · rintro ⟨c, hc, ⟨hp, hopen⟩, hm⟩
    refine ⟨by simp, descend?_cons_iff.2 ⟨c, hc, hp⟩, hm, fun q d hq hne hne' hd => ?_⟩
    obtain rfl | ⟨q, rfl, hqp⟩ := List.prefix_cons_iff.1 hq
    · exact absurd rfl hne
    · obtain ⟨c', hc', hd⟩ := descend?_cons_iff.1 hd
      obtain rfl := Option.some.inj (hc.symm.trans hc')
      exact hopen q d hqp (by simpa using hne') hd

/-- A node that carries none itself is on no path to one, and all of them are below it. -/
theorem topmost_iff_frontier (h : n.carries t = false) : n.Topmost t p m ↔ n.Frontier t p m := by
  cases p with
  | nil =>
    unfold Topmost Frontier
    simp only [reaches_nil_iff, ne_eq, not_true_eq_false, false_and, iff_false]
    rintro ⟨rfl, hm⟩
    simp [h] at hm
  | cons i p =>
    rw [frontier_cons_iff, Topmost, reaches_cons_iff]
    simp only [h, Topmost, true_and, exists_and_right, ← and_assoc]

theorem lists_descendants (n : Node) : Lists (· < ·) (fun p m => n.descend? p = some m) n.descendants :=
  (lists_depthFirst (fun _ => false) n).congr fun _ _ => reaches_open_iff

theorem lists_topmostValues (n : Node) (t : ValueType) : Lists (· < ·) (n.Topmost t) (n.topmostValues t) :=
  (lists_depthFirst _ n).filter _

theorem lists_valuesBelow (n : Node) (t : ValueType) :
    Lists (List.Shortlex (· < ·)) (n.Frontier t) (n.valuesBelow t) := by
  have hpaths : ((n.children.zipIdx.map fun x => ([x.2], x.1)).map Prod.fst).Pairwise (List.Shortlex (· < ·)) := by
    rw [List.pairwise_map, List.pairwise_map]
    exact (pairwise_zipIdx _).imp (List.shortlex_singleton_iff _ _).2
  have hlength : ∀ x ∈ n.children.zipIdx.map fun x => ([x.2], x.1), x.1.length = 1 := by
    simp only [List.mem_map]
    rintro _ ⟨x, -, rfl⟩
    rfl
  have hbelow := (lists_breadthFirst (·.carries t) hlength hpaths).filter (·.carries t)
  have hchildren : (n.children.zipIdx.map fun x => ([x.2], x.1)).map Prod.snd = n.children := by
    rw [List.map_map]
    exact List.zipIdx_map_fst 0 _
  rw [hchildren] at hbelow
  refine hbelow.congr fun p m => ?_
  cases p with
  | nil => simp [Frontier]
  | cons i p =>
    rw [frontier_cons_iff]
    simp only [List.mem_map, List.mem_zipIdx_iff_getElem?]
    constructor
    · rintro ⟨⟨_, ⟨⟨c, j⟩, hc, rfl⟩, q, hpq, hq⟩, hm⟩
      obtain ⟨rfl, rfl⟩ := List.cons.inj hpq
      exact ⟨c, hc, hq, hm⟩
    · rintro ⟨c, hc, hq, hm⟩
      exact ⟨⟨([i], c), ⟨(c, i), hc, rfl⟩, p, rfl, hq⟩, hm⟩

end

end Packrat.Node
