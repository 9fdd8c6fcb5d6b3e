import Minnow.Machine

/-! The routing table: one vector of entries for each interface number. -/
namespace Minnow

structure RouterTableEntry where
  routePrefix : Address
  prefixLength : UInt8
  nextHop : Option Address
  deriving DecidableEq, Repr

namespace RoutingTable

abbrev Table := List (List RouterTableEntry)

structure Route where
  entry : RouterTableEntry
  interfaceNum : ℕ
  deriving DecidableEq, Repr

/-- `router_table_.resize(n)`: longer vectors are cut, shorter ones get empty rows. -/
def resize (table : Table) (n : ℕ) : Table := table.take n ++ List.replicate (n - table.length) []

def addRoute (table : Table) (route : Route) : Table :=
  (resize table (route.interfaceNum + 1)).modify route.interfaceNum (· ++ [route.entry])

def addRoutes (routes : List Route) : Table := routes.foldl addRoute []

def entriesFrom (k : ℕ) : Table → List Route
  | [] => []
  | row::rows => row.map (fun entry => ⟨entry,k⟩) ++ entriesFrom (k+1) rows

/-- The routes that the scan in `route()` visits, in its order. -/
def consulted (table : Table) : List Route := entriesFrom 0 table

/-- Whether the top `prefix_length` bits agree; shifting by more than the width is undefined. -/
def ipPrefixMatched (dstIp routePrefixIp : Address) (prefixLength : UInt8) : Except Fault Bool :=
  if prefixLength = 0 then .ok true
  else if 32 < prefixLength then .error .arithmetic
  else
    let mask : UInt32 := 0xFFFFFFFF <<< (32 - prefixLength).toUInt32
    .ok (dstIp &&& mask == routePrefixIp &&& mask)

/-- The row of an interface number; empty where the table ends before it. -/
def row (table : Table) (i : ℕ) : List RouterTableEntry := table.getD i []

variable {table : Table} {routes : List Route} {route : Route}

theorem row_resize (table : Table) (n i : ℕ) :
    row (resize table n) i = if i < n then row table i else [] := by
  simp only [row,resize,List.getD_eq_getElem?_getD,List.getElem?_append,List.length_take,
    List.getElem?_take,List.getElem?_replicate]
  by_cases hn : i < n
  · by_cases hi : i < table.length
    · simp [hn,hi]
    · have hnot : ¬ i < min n table.length := by omega
      have hin : i - min n table.length < n - table.length := by omega
      simp [hn,hi,hnot,hin]
  · have hnot : ¬ i < min n table.length := by omega
    have hout : ¬ i - min n table.length < n - table.length := by omega
    simp [hn,hnot,hout]

theorem length_resize (table : Table) (n : ℕ) : (resize table n).length = n := by
  simp [resize]
  omega

/-- What a call leaves in a row: rows above the new route's are gone. -/
theorem row_addRoute (table : Table) (route : Route) (i : ℕ) :
    row (addRoute table route) i =
      if i < route.interfaceNum then row table i
      else if i = route.interfaceNum then row table i ++ [route.entry] else [] := by
  have hlen := length_resize table (route.interfaceNum + 1)
  have hrow := row_resize table (route.interfaceNum + 1) i
  simp only [row,addRoute,List.getD_eq_getElem?_getD,List.getElem?_modify] at hrow ⊢
  by_cases hi : i = route.interfaceNum
  · subst i
    rw [if_pos (Nat.lt_succ_self _)] at hrow
    rw [List.getElem?_eq_getElem (by omega)] at hrow ⊢
    simp only [Option.getD_some] at hrow
    simp [hrow]
  · simp only [if_neg (Ne.symm hi)]
    rw [id_map',hrow]
    by_cases hlt : i < route.interfaceNum
    · simp [hlt,show i < route.interfaceNum + 1 by omega]
    · simp [hlt,hi,show ¬ i < route.interfaceNum + 1 by omega]

theorem addRoutes_snoc (routes : List Route) (route : Route) :
    addRoutes (routes ++ [route]) = addRoute (addRoutes routes) route := by
  simp [addRoutes]

theorem count_entriesFrom (k : ℕ) (table : Table) (r : Route) :
    (entriesFrom k table).count r =
      if k ≤ r.interfaceNum then (row table (r.interfaceNum - k)).count r.entry else 0 := by
  induction table generalizing k with
  | nil => simp [entriesFrom,row]
  | cons entries rows ih =>
    have hhead : (entries.map fun entry => (⟨entry,k⟩ : Route)).count r =
        if k = r.interfaceNum then entries.count r.entry else 0 := by
      split_ifs with hk
      · subst hk
        exact List.count_map_of_injective entries (fun entry => (⟨entry,r.interfaceNum⟩ : Route))
          (fun a b hab => (Route.mk.inj hab).1) r.entry
      · rw [List.count_eq_zero]
        intro hmem
        obtain ⟨entry,-,heq⟩ := List.mem_map.mp hmem
        exact hk (congrArg Route.interfaceNum heq)
    rw [entriesFrom,List.count_append,hhead,ih]
    rcases Nat.lt_trichotomy k r.interfaceNum with hlt | rfl | hgt
    · obtain ⟨d,hd⟩ := Nat.exists_eq_add_of_lt hlt
      have h₁ : r.interfaceNum - k = d + 1 := by omega
      have h₂ : r.interfaceNum - (k+1) = d := by omega
      rw [if_neg (by omega),if_pos (by omega),if_pos (by omega),h₁,h₂]
      simp [row]
    · simp [row]
    · rw [if_neg (by omega),if_neg (by omega),if_neg (by omega)]

theorem count_consulted (table : Table) (r : Route) :
    (consulted table).count r = (row table r.interfaceNum).count r.entry := by
  rw [consulted,count_entriesFrom,if_pos (Nat.zero_le _),Nat.sub_zero]

theorem count_addRoute (table : Table) (route r : Route) :
    (consulted (addRoute table route)).count r =
      if r.interfaceNum ≤ route.interfaceNum then (consulted table).count r + [route].count r
      else 0 := by
  rw [count_consulted,count_consulted,row_addRoute]
  rcases Nat.lt_trichotomy r.interfaceNum route.interfaceNum with hlt | heq | hgt
  · have hzero : [route].count r = 0 := by
      rw [List.count_eq_zero,List.mem_singleton]
      rintro rfl
      omega
    rw [if_pos hlt,if_pos hlt.le,hzero,Nat.add_zero]
  · have hone : [route.entry].count r.entry = [route].count r := by
      rcases r with ⟨entry,i⟩
      rcases route with ⟨entry',i'⟩
      obtain rfl : i = i' := heq
      simp [List.count_singleton]
    rw [if_neg (by omega),if_pos heq,if_pos heq.le,List.count_append,hone]
  · rw [if_neg (by omega),if_neg (by omega),if_neg (by omega)]
    rfl

theorem count_addRoutes_le (routes : List Route) (r : Route) :
    (consulted (addRoutes routes)).count r ≤ routes.count r := by
  induction routes using List.reverseRecOn with
  | nil => simp [addRoutes,consulted,entriesFrom]
  | append_singleton routes route ih =>
    rw [addRoutes_snoc,count_addRoute,List.count_append]
    split_ifs
    · omega
    · omega

/-- The table holds every route that was added, once for each time, and nothing else. -/
def KeepsAll (routes : List Route) : Prop := (consulted (addRoutes routes)).Perm routes

instance (routes : List Route) : Decidable (KeepsAll routes) := by unfold KeepsAll; infer_instance

def Ascending (routes : List Route) : Prop := routes.Pairwise fun a b => a.interfaceNum ≤ b.interfaceNum

/-- A call keeps what an exact table holds when its row is the last one, and otherwise cuts
rows off for good. -/
theorem keepsAll_snoc (routes : List Route) (route : Route) :
    KeepsAll (routes ++ [route]) ↔
      KeepsAll routes ∧ ∀ r ∈ routes, r.interfaceNum ≤ route.interfaceNum := by
  simp only [KeepsAll,List.perm_iff_count]
  have hstep := fun r => count_addRoute (addRoutes routes) route r
  rw [← addRoutes_snoc] at hstep
  constructor
  · intro hall
    have hbelow : ∀ r ∈ routes, r.interfaceNum ≤ route.interfaceNum := by
      intro r hr
      by_contra hgt
      have hc := hall r
      have hpos := List.count_pos_iff.mpr hr
      rw [hstep,if_neg hgt,List.count_append] at hc
      omega
    refine ⟨?_,hbelow⟩
    intro r
    have hc := hall r
    rw [hstep,List.count_append] at hc
    split_ifs at hc with hle
    · omega
    · have hle' := count_addRoutes_le routes r
      omega
  · rintro ⟨hall,hbelow⟩ r
    rw [hstep,List.count_append]
    split_ifs with hle
    · rw [hall r]
    · have hr : routes.count r = 0 := List.count_eq_zero.mpr fun hr => hle (hbelow r hr)
      have hroute : [route].count r = 0 := by
        rw [List.count_eq_zero,List.mem_singleton]
        rintro rfl
        exact hle le_rfl
      omega

/-- The table keeps all routes exactly when they were added in ascending order of interface
numbers. -/
theorem keepsAll_iff_ascending (routes : List Route) : KeepsAll routes ↔ Ascending routes := by
  induction routes using List.reverseRecOn with
  | nil => simp [KeepsAll,Ascending,addRoutes,consulted,entriesFrom]
  | append_singleton routes route ih =>
    rw [keepsAll_snoc,ih]
    simp only [Ascending,List.pairwise_append,List.pairwise_singleton,true_and,List.mem_singleton,
      forall_eq]

/-- A route on interface 1, then one on interface 0: the first one is gone. -/
theorem addRoute_loses_route : ∃ routes, ¬ KeepsAll routes :=
  ⟨[⟨⟨10,8,none⟩,1⟩,⟨⟨20,8,none⟩,0⟩],by decide⟩

def topBits (n : ℕ) (ip : Address) : List Bool := (List.range n).map fun k => ip.toBitVec.getMsbD k

theorem and_mask_eq_iff {a b : Address} {n : ℕ} (hn : n ≤ 32) :
    a.toBitVec &&& (0xFFFFFFFF#32 <<< (32 - n)) = b.toBitVec &&& (0xFFFFFFFF#32 <<< (32 - n)) ↔
      topBits n a = topBits n b := by
  have hmask : ∀ i < 32, (0xFFFFFFFF#32 <<< (32 - n)).getMsbD i = decide (i < n) := by
    intro i hi
    have hones : (0xFFFFFFFF#32) = BitVec.allOnes 32 := by decide
    rw [BitVec.getMsbD_shiftLeft,hones,BitVec.getMsbD_allOnes]
    simp
    omega
  constructor
  · intro h
    simp only [topBits]
    apply List.map_congr_left
    intro k hk
    have hk := List.mem_range.mp hk
    have hbit := congrArg (fun v => v.getMsbD k) h
    simpa [hmask k (by omega),hk] using hbit
  · intro h
    apply BitVec.eq_of_getMsbD_eq
    intro i hi
    rw [BitVec.getMsbD_and,BitVec.getMsbD_and,hmask i hi]
    by_cases hin : i < n
    · have hbit := List.map_inj_left.mp h i (List.mem_range.mpr hin)
      rw [hbit]
    · simp [hin]

theorem ipPrefixMatched_eq {dst ip : Address} {len : UInt8} (hlen : len.toNat ≤ 32) :
    ipPrefixMatched dst ip len = .ok (decide (topBits len.toNat dst = topBits len.toNat ip)) := by
  unfold ipPrefixMatched
  split_ifs with hzero hbig
  · subst hzero
    simp [topBits]
  · rw [UInt8.lt_iff_toNat_lt] at hbig
    simp at hbig
    omega
  · have hpos : 0 < len.toNat := by
      rw [Nat.pos_iff_ne_zero]
      exact fun h => hzero (UInt8.toNat_inj.mp h)
    have hwidth : ((32 - len).toUInt32).toNat = 32 - len.toNat := by
      rw [UInt8.toNat_toUInt32,UInt8.toNat_sub_of_le _ _ (by
        rw [UInt8.le_iff_toNat_le]
        simpa using hlen)]
      rfl
    have hmask : (0xFFFFFFFF <<< (32 - len).toUInt32 : UInt32).toBitVec =
        0xFFFFFFFF#32 <<< (32 - len.toNat) := by
      rw [UInt32.toBitVec_shiftLeft,BitVec.shiftLeft_eq',BitVec.toNat_umod,UInt32.toNat_toBitVec,
        hwidth]
      change 0xFFFFFFFF#32 <<< ((32 - len.toNat) % 32) = _
      rw [Nat.mod_eq_of_lt (by omega)]
    have hiff := and_mask_eq_iff (a := dst) (b := ip) hlen
    rw [← hmask,← UInt32.toBitVec_and,← UInt32.toBitVec_and,UInt32.toBitVec_inj] at hiff
    rw [Except.ok.injEq,Bool.eq_iff_iff,beq_iff_eq,decide_eq_true_eq]
    exact hiff

/-- The leading bits of the address are those of the entry. -/
def Matches (dst : Address) (route : Route) : Prop :=
  topBits route.entry.prefixLength.toNat dst =
    topBits route.entry.prefixLength.toNat route.entry.routePrefix

instance (dst : Address) (route : Route) : Decidable (Matches dst route) := by
  unfold Matches; infer_instance

/-- The entry matches, and no entry that matches is longer. -/
structure Longest (table : Table) (dst : Address) (route : Route) : Prop where
  mem : route ∈ consulted table
  matched : Matches dst route
  longest : ∀ route' ∈ consulted table, Matches dst route' →
    route'.entry.prefixLength ≤ route.entry.prefixLength

theorem entriesFrom_sorted (k : ℕ) (table : Table) :
    (entriesFrom k table).Pairwise (fun a b => a.interfaceNum ≤ b.interfaceNum) ∧
      ∀ route ∈ entriesFrom k table, k ≤ route.interfaceNum := by
  induction table generalizing k with
  | nil => simp [entriesFrom]
  | cons entries rows ih =>
    obtain ⟨hsorted,hle⟩ := ih (k+1)
    have hhead : ∀ route ∈ entries.map (fun entry => (⟨entry,k⟩ : Route)), route.interfaceNum = k := by
      simp
    constructor
    · refine List.pairwise_append.mpr ⟨?_,hsorted,?_⟩
      · rw [List.pairwise_map]
        exact List.pairwise_of_forall fun _ _ => le_rfl
      · intro a ha b hb
        have := hhead a ha
        have := hle b hb
        omega
    · intro route hroute
      rcases List.mem_append.mp hroute with hroute | hroute
      · exact (hhead route hroute).ge
      · have := hle route hroute
        omega

theorem consulted_sorted (table : Table) : Ascending (consulted table) :=
  (entriesFrom_sorted 0 table).1

end RoutingTable
end Minnow
