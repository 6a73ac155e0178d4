/-
The nodes beside the page table, and what is in their slots.

The dump is a list of tables in pre-order, 513 words each, and the nodes are allocated in the
same order: table `j` of the dump belongs to node `base + j`.  `HasShape` says what
`gr_construct_pgt` leaves in the nodes, whatever `malloc` returned: the slot of a valid entry
leads to the node of its table, and every other slot holds what it held before.

The lookup and the deallocation take a slot that is not null for a node.  That is right exactly
when the slots that are never assigned happened to be null.
-/
import GpuReplay.Proofs.PageTable
import GpuReplay.Proofs.Walks
import GpuReplay.Replayer.Term

namespace GpuReplay.Replayer

open Stdio Driver

/-! ### The tables of a dump -/

/-- The entries of table `j`. -/
def dumpTable (value : List Nat) (j : Nat) : List Nat := (value.drop (513 * j + 1)).take 512

/-- The tables that the entries `ws` announce, where table `last` is the last one before them:
how many levels are below each, and its number.  `next` are the tables from one on. -/
def tablesOf (next : Nat → List (Nat × Nat)) (level : Nat) : List Nat → Nat → List (Nat × Nat)
  | [], _ => []
  | w :: ws, last =>
      if pteIsValid w level then
        next (last + 1) ++ tablesOf next level ws (last + (next (last + 1)).length)
      else tablesOf next level ws last

/-- The tables from `j` on, with `n` levels below it. -/
def dumpTables (value : List Nat) : Nat → Nat → List (Nat × Nat)
  | 0, j => [(0, j)]
  | n + 1, j =>
      (n + 1, j) :: tablesOf (dumpTables value n) (3 - (n + 1)) (dumpTable value j) j

/-- The table that entry `i` of table `j` announces. -/
def childAt (value : List Nat) (n j i : Nat) : Nat :=
  j + (tablesOf (dumpTables value n) (3 - (n + 1)) ((dumpTable value j).take i) j).length + 1

section Tables

variable {next : Nat → List (Nat × Nat)} {level : Nat}

theorem tablesOf_append (ws vs : List Nat) :
    ∀ last, tablesOf next level (ws ++ vs) last
      = tablesOf next level ws last
        ++ tablesOf next level vs (last + (tablesOf next level ws last).length) := by
  induction ws with
  | nil => exact fun _ => rfl
  | cons w ws ih =>
      intro last
      rw [List.cons_append, tablesOf, tablesOf]
      by_cases hw : pteIsValid w level = true
      · rw [if_pos hw, if_pos hw, ih, List.append_assoc, List.length_append, Nat.add_assoc]
      · rw [if_neg hw, if_neg hw, ih]

/-- A table is the first of those from it on. -/
theorem mem_dumpTables (value : List Nat) : ∀ n j, (n, j) ∈ dumpTables value n j
  | 0, _ => List.mem_singleton_self _
  | _ + 1, _ => List.mem_cons_self

/-- The tables of an entry are among those of all. -/
theorem mem_tablesOf {ws : List Nat} {i w : Nat} (hi : ws[i]? = some w)
    (hw : pteIsValid w level = true) (last : Nat) {x : Nat × Nat}
    (hx : x ∈ next (last + (tablesOf next level (ws.take i) last).length + 1)) :
    x ∈ tablesOf next level ws last := by
  obtain ⟨hlt, hget⟩ := List.getElem?_eq_some_iff.mp hi
  have hsplit : ws = ws.take i ++ w :: ws.drop (i + 1) := by
    rw [← hget, ← List.drop_eq_getElem_cons hlt, List.take_append_drop]
  rw [hsplit, tablesOf_append, tablesOf, if_pos hw]
  exact List.mem_append_right _ (List.mem_append_left _ hx)

theorem exists_of_mem_tablesOf {ws : List Nat} {x : Nat × Nat} :
    ∀ {last : Nat}, x ∈ tablesOf next level ws last → ∃ i w, ws[i]? = some w ∧
      pteIsValid w level = true ∧
      x ∈ next (last + (tablesOf next level (ws.take i) last).length + 1) := by
  induction ws with
  | nil => exact fun hx => absurd hx List.not_mem_nil
  | cons v ws ih =>
      intro last hx
      rw [tablesOf] at hx
      by_cases hv : pteIsValid v level = true
      · rw [if_pos hv] at hx
        rcases List.mem_append.mp hx with hx | hx
        · exact ⟨0, v, rfl, hv, hx⟩
        · obtain ⟨i, w, hi, hw, hx⟩ := ih hx
          refine ⟨i + 1, w, hi, hw, ?_⟩
          rwa [List.take_succ_cons, tablesOf, if_pos hv, List.length_append, ← Nat.add_assoc last]
      · rw [if_neg hv] at hx
        obtain ⟨i, w, hi, hw, hx⟩ := ih hx
        refine ⟨i + 1, w, hi, hw, ?_⟩
        rwa [List.take_succ_cons, tablesOf, if_neg hv]

end Tables

/-! ### What is in the nodes -/

/-- The nodes of the tables from `j` on, with `n` levels below it: `base` is the node of table
`0`. -/
def HasShape (value : List Nat) (junk : Nat → Nat → UserPtr) (base : Nat) (heap : List UserPgtable) :
    Nat → Nat → Prop
  | 0, j => (dumpTable value j).length = 512 ∧
      ∃ u, heap[base + j]? = some u ∧ ∀ i, u.pgd i = junk (base + j) i
  | n + 1, j => (dumpTable value j).length = 512 ∧
      ∃ u, heap[base + j]? = some u ∧ ∀ i w, (dumpTable value j)[i]? = some w →
        (pteIsValid w (3 - (n + 1)) = true → u.pgd i = .node (base + childAt value n j i) ∧
          HasShape value junk base heap n (childAt value n j i)) ∧
        (pteIsValid w (3 - (n + 1)) = false → u.pgd i = junk (base + j) i)

section Shape

variable {value : List Nat} {junk : Nat → Nat → UserPtr} {base : Nat}

theorem HasShape.mono {heap heap' : List UserPgtable} :
    ∀ {n j : Nat}, (∀ k u, base + j ≤ k → heap[k]? = some u → heap'[k]? = some u) →
      HasShape value junk base heap n j → HasShape value junk base heap' n j := by
  intro n
  induction n with
  | zero =>
      intro j hkeep h
      obtain ⟨hlen, u, hu, hslots⟩ := h
      exact ⟨hlen, u, hkeep _ u (Nat.le_refl _) hu, hslots⟩
  | succ n ih =>
      intro j hkeep h
      obtain ⟨hlen, u, hu, hslots⟩ := h
      refine ⟨hlen, u, hkeep _ u (Nat.le_refl _) hu, fun i w hw => ⟨fun hvalid => ?_,
        (hslots i w hw).2⟩⟩
      obtain ⟨hptr, hchild⟩ := (hslots i w hw).1 hvalid
      refine ⟨hptr, ih (fun k u hk => hkeep k u ?_) hchild⟩
      unfold childAt at hk
      omega

/-- The tables from `j` on have been built from machine `m`. -/
structure ShapeBuilt (value : List Nat) (junk : Nat → Nat → UserPtr) (base n j : Nat) (m : Machine)
    (b : Built) : Prop where
  userPgd : b.userPgd = .node (base + j)
  offset : b.offset + 513 = 513 * (j + (dumpTables value n j).length)
  inside : 513 * (j + (dumpTables value n j).length) ≤ value.length
  grown : b.machine.heap.length = base + j + (dumpTables value n j).length
  keep : ∀ k, k < m.heap.length → b.machine.heap[k]? = m.heap[k]?
  shape : HasShape value junk base b.machine.heap n j

/-- Building one level down leaves the nodes in shape. -/
def ShapesBelow (value : List Nat) (junk : Nat → Nat → UserPtr) (base n : Nat)
    (next : Nat → Machine → Except Stop Built) : Prop :=
  ∀ (j : Nat) (m : Machine) (b : Built), 513 * j ≤ value.length → m.heap.length = base + j →
    next (513 * j) m = .ok b → ShapeBuilt value junk base n j m b

theorem oldPteValue_table (hlen : value.length < 2 ^ 32) {j : Nat} (hj : 513 * j ≤ value.length)
    {ws : List Nat} (hold : oldPteValue value (513 * j) = .ok ws) :
    ws = dumpTable value j ∧ ws.length = 512 ∧ 513 * (j + 1) ≤ value.length := by
  have hcursor : (513 * j + 1) % 2 ^ 32 = 513 * j + 1 := Nat.mod_eq_of_lt (by omega)
  unfold oldPteValue at hold
  rw [hcursor] at hold
  split at hold
  next hle =>
    obtain rfl := Except.ok.inj hold
    refine ⟨rfl, ?_, by omega⟩
    rw [List.length_take, List.length_drop]
    omega
  next => cases hold

theorem finishTable_offset {newPgd node : Nat} {r : List Nat × Nat × Machine} {b : Built}
    (hrun : finishTable newPgd node r = .ok b) : b.offset = r.2.1 := by
  obtain ⟨mem, -, hdone⟩ := Except.bind_eq_ok.mp hrun
  obtain rfl := Except.ok.inj hdone
  rfl

/-- What the loop over the entries of table `j` leaves, from entry `i` on: `u` is the node of
the table before. -/
structure EntriesShaped (value : List Nat) (junk : Nat → Nat → UserPtr) (base n j i : Nat)
    (u : UserPgtable) (m : Machine) (r : List Nat × Nat × Machine) : Prop where
  offset : r.2.1 + 513 = 513 * (j + (dumpTables value (n + 1) j).length)
  inside : 513 * (j + (dumpTables value (n + 1) j).length) ≤ value.length
  grown : r.2.2.heap.length = base + j + (dumpTables value (n + 1) j).length
  keep : ∀ k, k < m.heap.length → k ≠ base + j → r.2.2.heap[k]? = m.heap[k]?
  node : ∃ u', r.2.2.heap[base + j]? = some u' ∧ (∀ k, k < i → u'.pgd k = u.pgd k) ∧
    ∀ k w, i ≤ k → (dumpTable value j)[k]? = some w →
      (pteIsValid w (3 - (n + 1)) = true → u'.pgd k = .node (base + childAt value n j k) ∧
        HasShape value junk base r.2.2.heap n (childAt value n j k)) ∧
      (pteIsValid w (3 - (n + 1)) = false → u'.pgd k = u.pgd k)

section Entries

variable {n j i : Nat} {u : UserPgtable} {m : Machine} {r : List Nat × Nat × Machine}

theorem EntriesShaped.nil {last : Nat} (hend : (dumpTable value j).length ≤ i)
    (hcount : last + 1 = j + (dumpTables value (n + 1) j).length)
    (hinside : 513 * (last + 1) ≤ value.length) (hgrown : m.heap.length = base + last + 1)
    (hu : m.heap[base + j]? = some u) :
    EntriesShaped value junk base n j i u m ([], 513 * last, m) := by
  refine ⟨?_, ?_, ?_, fun _ _ _ => rfl, u, hu, fun _ _ => rfl, fun k w hk hw => ?_⟩
  · rw [← hcount]
    dsimp only
    omega
  · rwa [← hcount]
  · dsimp only
    omega
  · rw [List.getElem?_eq_none (by omega)] at hw
    cases hw

/-- An entry with a table below: its slot is set to the node of the table, which nothing after
changes. -/
theorem EntriesShaped.cons_table {w last : Nat} {b : Built} {ws ws' : List Nat}
    (hword : (dumpTable value j)[i]? = some w) (hw : pteIsValid w (3 - (n + 1)) = true)
    (hchild : childAt value n j i = last + 1) (hlast : j ≤ last)
    (hgrown : m.heap.length = base + last + 1)
    (hbuilt : ShapeBuilt value junk base n (last + 1) m b)
    (h : EntriesShaped value junk base n j (i + 1)
      { u with pgd := fun k => if k = i then b.userPgd else u.pgd k }
      (b.machine.setPgd (base + j) i b.userPgd) (ws, r.2)) :
    EntriesShaped value junk base n j i u m (ws', r.2) := by
  obtain ⟨hoff, hin, hgr, hkeep, v, hv, hbefore, hafter⟩ := h
  have hgrown' := hbuilt.grown
  have hset : (b.machine.setPgd (base + j) i b.userPgd).heap.length = b.machine.heap.length :=
    List.length_modify ..
  refine ⟨hoff, hin, hgr, fun k hk hne => ?_, v, hv, fun k hk => ?_, fun k x hk hx => ?_⟩
  · rw [hkeep k (by rw [hset]; omega) hne, getElem?_setPgd_ne _ hne]
    exact hbuilt.keep k hk
  · rw [hbefore k (by omega)]
    exact if_neg (by omega)
  · by_cases hki : k = i
    · rw [hki, hword] at hx
      obtain rfl := Option.some.inj hx
      refine ⟨fun _ => ?_, fun hnot => absurd hw (by rw [hnot]; decide)⟩
      rw [hki, hchild]
      refine ⟨?_, HasShape.mono (fun k x hk hx => ?_) hbuilt.shape⟩
      · rw [hbefore i (Nat.lt_succ_self i)]
        show (if i = i then b.userPgd else _) = _
        rw [if_pos rfl, hbuilt.userPgd]
      · have hlt := (List.getElem?_eq_some_iff.mp hx).1
        rw [hkeep k (by rw [hset]; exact hlt) (by omega), getElem?_setPgd_ne _ (by omega)]
        exact hx
    · obtain ⟨hvalid, hinvalid⟩ := hafter k x (by omega) hx
      refine ⟨hvalid, fun hnot => ?_⟩
      rw [hinvalid hnot]
      exact if_neg hki

/-- Any other entry leaves its slot as it is. -/
theorem EntriesShaped.cons_plain {w : Nat} {ws ws' : List Nat}
    (hword : (dumpTable value j)[i]? = some w) (hw : ¬pteIsValid w (3 - (n + 1)) = true)
    (h : EntriesShaped value junk base n j (i + 1) u m (ws, r.2)) :
    EntriesShaped value junk base n j i u m (ws', r.2) := by
  obtain ⟨hoff, hin, hgr, hkeep, v, hv, hbefore, hafter⟩ := h
  refine ⟨hoff, hin, hgr, hkeep, v, hv, fun k hk => hbefore k (by omega), fun k x hk hx => ?_⟩
  by_cases hki : k = i
  · rw [hki, hword] at hx
    obtain rfl := Option.some.inj hx
    refine ⟨fun hvalid => absurd hvalid hw, fun _ => ?_⟩
    exact hbefore k (by omega)
  · exact hafter k x (by omega) hx

end Entries

/-- **The loop over the entries assigns the slots of the tables they announce**, and no other. -/
theorem constructEntries_shape {n j : Nat} {next : Nat → Machine → Except Stop Built}
    (hlen : value.length < 2 ^ 32) (hnext : ShapesBelow value junk base n next) :
    ∀ (ws pre : List Nat) (last : Nat) (m : Machine) (r : List Nat × Nat × Machine)
      (u : UserPgtable), dumpTable value j = pre ++ ws →
      last = j + (tablesOf (dumpTables value n) (3 - (n + 1)) pre j).length →
      513 * (last + 1) ≤ value.length → m.heap.length = base + last + 1 →
      m.heap[base + j]? = some u →
      constructEntries next (3 - (n + 1)) (base + j) pre.length ws (513 * last) m = .ok r →
      EntriesShaped value junk base n j pre.length u m r := by
  intro ws
  induction ws with
  | nil =>
      intro pre last m r u htable hlast hinside hgrown hu hrun
      rw [List.append_nil] at htable
      obtain rfl := Except.ok.inj hrun
      refine .nil (Nat.le_of_eq (congrArg List.length htable)) ?_ hinside hgrown hu
      rw [dumpTables, htable, List.length_cons]
      omega
  | cons w ws ih =>
      intro pre last m r u htable hlast hinside hgrown hu hrun
      have htable' : dumpTable value j = (pre ++ [w]) ++ ws := by
        rw [htable, List.append_assoc]
        rfl
      have hlength : (pre ++ [w]).length = pre.length + 1 := List.length_append
      have hword : (dumpTable value j)[pre.length]? = some w := by
        rw [htable, List.getElem?_append_right (Nat.le_refl _), Nat.sub_self]
        rfl
      rw [constructEntries] at hrun
      by_cases hw : pteIsValid w (3 - (n + 1)) = true
      · rw [if_pos hw] at hrun
        obtain ⟨b, hb, hrun⟩ := Except.bind_eq_ok.mp hrun
        obtain ⟨rest, hrest, hdone⟩ := Except.bind_eq_ok.mp hrun
        obtain rfl := Except.ok.inj hdone
        have hcursor : (513 * last + 513) % 2 ^ 32 = 513 * (last + 1) := by
          rw [Nat.mod_eq_of_lt (by omega)]
          omega
        rw [hcursor] at hb
        have hbuilt := hnext (last + 1) m b hinside (by omega) hb
        have hchild : childAt value n j pre.length = last + 1 := by
          unfold childAt
          rw [htable, List.take_left', hlast]
          rfl
        have htables : (tablesOf (dumpTables value n) (3 - (n + 1)) (pre ++ [w]) j).length
            = (tablesOf (dumpTables value n) (3 - (n + 1)) pre j).length
              + (dumpTables value n (last + 1)).length := by
          rw [tablesOf_append, tablesOf, if_pos hw, tablesOf, List.append_nil, List.length_append,
            hlast]
        have hoffset := hbuilt.offset
        have hoffset' : b.offset = 513 * (last + (dumpTables value n (last + 1)).length) := by
          omega
        have hinside' := hbuilt.inside
        have hgrown' := hbuilt.grown
        have hset : (b.machine.setPgd (base + j) pre.length b.userPgd).heap.length
            = b.machine.heap.length := List.length_modify ..
        have hu' := getElem?_setPgd_self ((hbuilt.keep (base + j) (by omega)).trans hu) pre.length
          b.userPgd
        rw [hoffset', ← hlength] at hrest
        have hshaped := ih (pre ++ [w]) (last + (dumpTables value n (last + 1)).length) _ _ _ htable'
          (by rw [htables, hlast]; omega) (by omega) (by rw [hset]; omega) hu' hrest
        rw [hlength] at hshaped
        exact .cons_table hword hw hchild (by omega) hgrown hbuilt hshaped
      · rw [if_neg hw] at hrun
        obtain ⟨rest, hrest, hdone⟩ := Except.bind_eq_ok.mp hrun
        obtain rfl := Except.ok.inj hdone
        have htables : tablesOf (dumpTables value n) (3 - (n + 1)) (pre ++ [w]) j
            = tablesOf (dumpTables value n) (3 - (n + 1)) pre j := by
          rw [tablesOf_append, tablesOf, if_neg hw, tablesOf, List.append_nil]
        rw [← hlength] at hrest
        have hshaped := ih (pre ++ [w]) last _ _ _ htable' (by rw [htables]; exact hlast) hinside
          hgrown hu hrest
        rw [hlength] at hshaped
        exact .cons_plain hword hw hshaped

/-- **The nodes are in shape after the reconstruction.** -/
theorem grConstructPgt_shape (hlen : value.length < 2 ^ 32) :
    ∀ n, ShapesBelow value junk base n (grConstructPgt junk value n) := by
  intro n
  induction n with
  | zero =>
      intro j m b hj hgrown hrun
      rw [grConstructPgt] at hrun
      obtain ⟨⟨newPgd, m'⟩, hnew, hrun⟩ := Except.bind_eq_ok.mp hrun
      obtain ⟨old, hold, hrun⟩ := Except.bind_eq_ok.mp hrun
      obtain ⟨page, hheap⟩ := newTable_heap hnew
      obtain ⟨rfl, hlength, hinside⟩ := oldPteValue_table hlen hj hold
      obtain ⟨hptr, hsame⟩ := finishTable_node hrun
      have hoffset := finishTable_offset hrun
      dsimp only at hheap hsame hoffset
      rw [hheap] at hsame
      have hone : (dumpTables value 0 j).length = 1 := rfl
      refine ⟨by rw [hptr, hgrown], by rw [hone, hoffset]; omega, by rw [hone]; exact hinside, ?_,
        fun k hk => ?_, hlength, ⟨page, junk m.heap.length⟩, ?_, fun i => ?_⟩
      · rw [hone, hsame, List.length_append, List.length_singleton, hgrown]
      · rw [hsame]
        exact List.getElem?_append_left hk
      · rw [hsame, ← hgrown, List.getElem?_append_right (Nat.le_refl _), Nat.sub_self]
        rfl
      · rw [← hgrown]
  | succ n ih =>
      intro j m b hj hgrown hrun
      rw [grConstructPgt] at hrun
      obtain ⟨⟨newPgd, m'⟩, hnew, hrun⟩ := Except.bind_eq_ok.mp hrun
      obtain ⟨old, hold, hrun⟩ := Except.bind_eq_ok.mp hrun
      obtain ⟨r, hentries, hdone⟩ := Except.bind_eq_ok.mp hrun
      obtain ⟨page, hheap⟩ := newTable_heap hnew
      obtain ⟨rfl, hlength, hinside⟩ := oldPteValue_table hlen hj hold
      obtain ⟨hptr, hsame⟩ := finishTable_node hdone
      have hoffset := finishTable_offset hdone
      dsimp only at hheap hentries
      have hu : m'.heap[base + j]? = some ⟨page, junk m.heap.length⟩ := by
        rw [hheap, ← hgrown, List.getElem?_append_right (Nat.le_refl _), Nat.sub_self]
        rfl
      have hgrown' : m'.heap.length = base + j + 1 := by
        rw [hheap, List.length_append, List.length_singleton, hgrown]
      rw [hgrown] at hentries
      have hshaped := constructEntries_shape hlen ih (dumpTable value j) [] j m' r _ rfl rfl hinside
        hgrown' hu hentries
      obtain ⟨v, hv, -, hslots⟩ := hshaped.node
      refine ⟨by rw [hptr, hgrown], by rw [hoffset]; exact hshaped.offset, hshaped.inside,
        by rw [hsame]; exact hshaped.grown, fun k hk => ?_, hlength, v, by rw [hsame]; exact hv,
        fun i w hw => ?_⟩
      · rw [hsame, hshaped.keep k (by omega) (by omega), hheap]
        exact List.getElem?_append_left hk
      · obtain ⟨hvalid, hinvalid⟩ := hslots i w (Nat.zero_le i) hw
        rw [hsame]
        refine ⟨hvalid, fun hnot => ?_⟩
        rw [hinvalid hnot, hgrown]

/-! ### Where the slots that are not assigned are null -/

/-- The slots of the nodes from table `j` on that are not assigned were null. -/
def SlotsNull (value : List Nat) (junk : Nat → Nat → UserPtr) (base n j : Nat) : Prop :=
  ∀ n' j', (n', j') ∈ dumpTables value n j → ∀ i w, (dumpTable value j')[i]? = some w →
    pteIsValid w (3 - n') = false → junk (base + j') i = .null

/-- A table that is announced is one of those. -/
theorem childAt_mem {n j i w : Nat} (hi : (dumpTable value j)[i]? = some w)
    (hw : pteIsValid w (3 - (n + 1)) = true) :
    (n, childAt value n j i) ∈ tablesOf (dumpTables value n) (3 - (n + 1)) (dumpTable value j) j :=
  mem_tablesOf hi hw j (mem_dumpTables value n _)

theorem SlotsNull.child {n j i w : Nat} (h : SlotsNull value junk base (n + 1) j)
    (hi : (dumpTable value j)[i]? = some w) (hw : pteIsValid w (3 - (n + 1)) = true) :
    SlotsNull value junk base n (childAt value n j i) :=
  fun n' j' hmem => h n' j' (List.mem_cons_of_mem _ (mem_tablesOf hi hw j hmem))

/-- The slots of every node: those of valid entries lead to nodes. -/
theorem HasShape.slot {heap : List UserPgtable} :
    ∀ {n j : Nat}, HasShape value junk base heap n j → ∀ {n' j' : Nat},
      (n', j') ∈ dumpTables value n j → ∃ u, heap[base + j']? = some u ∧
        ∀ i w, (dumpTable value j')[i]? = some w →
          (pteIsValid w (3 - n') = true → ∃ c, u.pgd i = .node c) ∧
          (pteIsValid w (3 - n') = false → u.pgd i = junk (base + j') i) := by
  intro n
  induction n with
  | zero =>
      intro j h n' j' hmem
      obtain ⟨rfl, rfl⟩ := Prod.mk.inj (List.mem_singleton.mp hmem)
      obtain ⟨-, u, hu, hslots⟩ := h
      exact ⟨u, hu, fun i w _ => ⟨fun hvalid => absurd hvalid Bool.false_ne_true,
        fun _ => hslots i⟩⟩
  | succ n ih =>
      intro j h n' j' hmem
      obtain ⟨-, u, hu, hslots⟩ := h
      rcases List.mem_cons.mp hmem with heq | hmem
      · obtain ⟨rfl, rfl⟩ := Prod.mk.inj heq
        exact ⟨u, hu, fun i w hw => ⟨fun hvalid => ⟨_, ((hslots i w hw).1 hvalid).1⟩,
          (hslots i w hw).2⟩⟩
      · obtain ⟨i, w, hi, hw, hchild⟩ := exists_of_mem_tablesOf hmem
        exact ih ((hslots i w hi).1 hw).2 hchild

/-- The entry of a slot. -/
theorem HasShape.word {heap : List UserPgtable} {n j i : Nat}
    (h : HasShape value junk base heap n j) (hi : i < 512) :
    ∃ w, (dumpTable value j)[i]? = some w := by
  have hlength : (dumpTable value j).length = 512 := by
    cases n with
    | zero => exact h.1
    | succ n => exact h.1
  exact ⟨_, List.getElem?_eq_getElem (by omega)⟩

/-! ### The lookup -/

/-- The table `steps` levels down from table `j` on the path of an address, if it is there. -/
def dumpPath (value : List Nat) (gaddr : Nat) : Nat → Nat → Nat → Option Nat
  | 0, _, j => some j
  | _ + 1, 0, _ => none
  | steps + 1, n + 1, j =>
      match (dumpTable value j)[pgdOffset gaddr (3 - (n + 1))]? with
      | none => none
      | some w =>
          if pteIsValid w (3 - (n + 1)) then
            dumpPath value gaddr steps n (childAt value n j (pgdOffset gaddr (3 - (n + 1))))
          else none

/-- **The lookup goes down the path of the address, and aborts where a table is missing.** -/
theorem HasShape.lookup {heap : List UserPgtable} {gaddr : Nat} :
    ∀ {steps n j : Nat}, steps ≤ n → n ≤ 3 → HasShape value junk base heap n j →
      SlotsNull value junk base n j →
      walkUserPgt heap gaddr steps (3 - n) (.node (base + j))
        = match dumpPath value gaddr steps n j with
          | some k => .ok (.node (base + k))
          | none => .error (.abort "cannot get target pgd") := by
  intro steps
  induction steps with
  | zero => exact fun _ _ _ _ => rfl
  | succ steps ih =>
      intro n j hsteps hn h hnull
      obtain ⟨n, rfl⟩ : ∃ k, n = k + 1 := ⟨n - 1, by omega⟩
      obtain ⟨w, hw⟩ := h.word (Nat.mod_lt (gaddr / 4096 / 2 ^ ((3 - (3 - (n + 1))) * 9)) (by decide))
      have hw' : (dumpTable value j)[pgdOffset gaddr (3 - (n + 1))]? = some w := hw
      have hself : (n + 1, j) ∈ dumpTables value (n + 1) j := List.mem_cons_self
      obtain ⟨-, u, hu, hslots⟩ := h
      obtain ⟨hvalid, hinvalid⟩ := hslots _ w hw'
      have hlevel : 3 - (n + 1) + 1 = 3 - n := by omega
      rw [walkUserPgt, derefPgt, hu, Except.ok_bind, dumpPath, hw']
      dsimp only
      cases hpte : pteIsValid w (3 - (n + 1)) with
      | true =>
          obtain ⟨hptr, hchild⟩ := hvalid hpte
          rw [hptr, if_neg (fun h => by cases h), if_pos rfl, hlevel]
          exact ih (by omega) (by omega) hchild (hnull.child hw' hpte)
      | false =>
          rw [hinvalid hpte, hnull _ _ hself _ w hw' hpte, if_pos rfl, if_neg Bool.false_ne_true]
          rfl

/-! ### The deallocation -/

/-- **Freeing a node frees the nodes of its tables**, each once: the loop over its slots. -/
theorem freeSlots_shape {heap : List UserPgtable} {n j : Nat}
    {free : UserPtr → List Nat → Except Stop (List Nat)}
    {pgd : Nat → UserPtr}
    (hslots : ∀ i w, (dumpTable value j)[i]? = some w →
      (pteIsValid w (3 - (n + 1)) = true → pgd i = .node (base + childAt value n j i) ∧
        HasShape value junk base heap n (childAt value n j i)) ∧
      (pteIsValid w (3 - (n + 1)) = false → pgd i = .null))
    (hfree : ∀ i w, (dumpTable value j)[i]? = some w → pteIsValid w (3 - (n + 1)) = true →
      ∀ freed, (∀ k ∈ freed, base + childAt value n j i ≤ k →
        base + childAt value n j i + (dumpTables value n (childAt value n j i)).length ≤ k) →
      ∃ more, free (.node (base + childAt value n j i)) freed = .ok (freed ++ more) ∧
        more.Perm (List.range' (base + childAt value n j i)
          (dumpTables value n (childAt value n j i)).length)) :
    ∀ (ws pre : List Nat) (last : Nat) (freed : List Nat), dumpTable value j = pre ++ ws →
      last = j + (tablesOf (dumpTables value n) (3 - (n + 1)) pre j).length →
      (∀ k ∈ freed, base + last + 1 ≤ k →
        base + last + 1 + (tablesOf (dumpTables value n) (3 - (n + 1)) ws last).length ≤ k) →
      ∃ more, freeSlots free pgd (List.range' pre.length ws.length) freed = .ok (freed ++ more) ∧
        more.Perm (List.range' (base + last + 1)
          (tablesOf (dumpTables value n) (3 - (n + 1)) ws last).length) := by
  intro ws
  induction ws with
  | nil =>
      intro pre last freed _ _ _
      exact ⟨[], by rw [List.append_nil]; rfl, List.Perm.refl _⟩
  | cons w ws ih =>
      intro pre last freed htable hlast hfreed
      have htable' : dumpTable value j = (pre ++ [w]) ++ ws := by
        rw [htable, List.append_assoc]
        rfl
      have hlength : (pre ++ [w]).length = pre.length + 1 := List.length_append
      have hword : (dumpTable value j)[pre.length]? = some w := by
        rw [htable, List.getElem?_append_right (Nat.le_refl _), Nat.sub_self]
        rfl
      obtain ⟨hvalid, hinvalid⟩ := hslots _ w hword
      rw [List.length_cons, List.range'_succ, freeSlots, ← hlength]
      rw [tablesOf] at hfreed ⊢
      cases hpte : pteIsValid w (3 - (n + 1)) with
      | true =>
          obtain ⟨hptr, hshape⟩ := hvalid hpte
          have hchild : childAt value n j pre.length = last + 1 := by
            unfold childAt
            rw [htable, List.take_left', hlast]
            rfl
          have hthis := hfree _ w hword hpte
          rw [hchild] at hptr hthis
          rw [hpte, if_pos rfl, List.length_append] at hfreed
          obtain ⟨more, hrun, hperm⟩ := hthis freed fun k hk hle => by
            have := hfreed k hk (by omega)
            omega
          have htables : (tablesOf (dumpTables value n) (3 - (n + 1)) (pre ++ [w]) j).length
              = (tablesOf (dumpTables value n) (3 - (n + 1)) pre j).length
                + (dumpTables value n (last + 1)).length := by
            rw [tablesOf_append, tablesOf, if_pos hpte, tablesOf, List.append_nil,
              List.length_append, hlast]
          obtain ⟨rest, hrest, hperm'⟩ := ih (pre ++ [w])
            (last + (dumpTables value n (last + 1)).length) (freed ++ more) htable'
            (by rw [htables, hlast]; omega) fun k hk hle => by
              rcases List.mem_append.mp hk with hk | hk
              · have := hfreed k hk (by omega)
                omega
              · have := List.mem_range'_1.mp (hperm.mem_iff.mp hk)
                omega
          rw [hptr, if_neg (fun h => by cases h), hrun, Except.ok_bind, hrest, List.append_assoc,
            if_pos rfl, List.length_append, ← List.range'_append_1]
          refine ⟨_, rfl, hperm.append ?_⟩
          rw [show base + last + 1 + (dumpTables value n (last + 1)).length
            = base + (last + (dumpTables value n (last + 1)).length) + 1 by omega]
          exact hperm'
      | false =>
          rw [hpte, if_neg Bool.false_ne_true] at hfreed
          rw [hinvalid hpte, if_pos rfl, if_neg Bool.false_ne_true]
          have htables : tablesOf (dumpTables value n) (3 - (n + 1)) (pre ++ [w]) j
              = tablesOf (dumpTables value n) (3 - (n + 1)) pre j := by
            rw [tablesOf_append, tablesOf, if_neg (by rw [hpte]; decide), tablesOf, List.append_nil]
          exact ih (pre ++ [w]) last freed htable' (by rw [htables]; exact hlast) hfreed

theorem freeSlots_null {free : UserPtr → List Nat → Except Stop (List Nat)} {pgd : Nat → UserPtr}
    (freed : List Nat) : ∀ is : List Nat, (∀ i ∈ is, pgd i = .null) →
      freeSlots free pgd is freed = .ok freed := by
  intro is
  induction is with
  | nil => exact fun _ => rfl
  | cons i is ih =>
      intro hnull
      rw [freeSlots, if_pos (hnull i List.mem_cons_self)]
      exact ih fun k hk => hnull k (List.mem_cons_of_mem i hk)

/-- **The nodes of the tables are freed**, each once. -/
theorem freeUserPgtable_shape {heap : List UserPgtable} :
    ∀ {n j : Nat}, HasShape value junk base heap n j → SlotsNull value junk base n j →
      ∀ {fuel : Nat} {freed : List Nat}, n < fuel →
        (∀ k ∈ freed, base + j ≤ k → base + j + (dumpTables value n j).length ≤ k) →
        ∃ more, freeUserPgtable heap fuel (.node (base + j)) freed = .ok (freed ++ more) ∧
          more.Perm (List.range' (base + j) (dumpTables value n j).length) := by
  intro n
  induction n with
  | zero =>
      intro j h hnull fuel freed hfuel hfreed
      obtain ⟨fuel, rfl⟩ : ∃ f, fuel = f + 1 := ⟨fuel - 1, by omega⟩
      have hone : (dumpTables value 0 j).length = 1 := rfl
      have hword := fun i hi => @HasShape.word _ _ _ _ 0 j i h hi
      obtain ⟨-, u, hu, hslots⟩ := h
      have hnot : base + j ∉ freed := fun hk => by
        have := hfreed _ hk (Nat.le_refl _)
        omega
      have hloop : freeSlots (freeUserPgtable heap fuel) u.pgd (List.range 512) freed = .ok freed := by
        refine freeSlots_null freed _ fun i hi => ?_
        obtain ⟨w, hw⟩ := hword i (List.mem_range.mp hi)
        rw [hslots i]
        exact hnull 0 j List.mem_cons_self i w hw rfl
      refine ⟨[base + j], ?_, List.Perm.refl _⟩
      rw [freeUserPgtable]
      rw [if_neg hnot, hu]
      dsimp only
      rw [hloop, Except.ok_bind, if_neg hnot]
      rfl
  | succ n ih =>
      intro j h hnull fuel freed hfuel hfreed
      obtain ⟨fuel, rfl⟩ : ∃ f, fuel = f + 1 := ⟨fuel - 1, by omega⟩
      have hself : (n + 1, j) ∈ dumpTables value (n + 1) j := List.mem_cons_self
      have hcount : (dumpTables value (n + 1) j).length
          = (tablesOf (dumpTables value n) (3 - (n + 1)) (dumpTable value j) j).length + 1 := by
        rw [dumpTables, List.length_cons]
      obtain ⟨hlength, u, hu, hslots⟩ := h
      have hnot : base + j ∉ freed := fun hk => by
        have := hfreed _ hk (Nat.le_refl _)
        omega
      obtain ⟨more, hloop, hperm⟩ := @freeSlots_shape value junk base heap n j
        (freeUserPgtable heap fuel) u.pgd
        (fun i w hw => ⟨(hslots i w hw).1, fun hpte => by
          rw [(hslots i w hw).2 hpte]
          exact hnull _ _ hself i w hw hpte⟩)
        (fun i w hw hpte freed hfreed =>
          ih ((hslots i w hw).1 hpte).2 (hnull.child hw hpte) (by omega) hfreed)
        (dumpTable value j) [] j freed rfl rfl fun k hk hle => by
          have := hfreed k hk (by omega)
          omega
      rw [List.length_nil, hlength, ← List.range_eq_range'] at hloop
      have hnot' : base + j ∉ freed ++ more := fun hk => by
        rcases List.mem_append.mp hk with hk | hk
        · exact hnot hk
        · have := List.mem_range'_1.mp (hperm.mem_iff.mp hk)
          omega
      refine ⟨more ++ [base + j], ?_, ?_⟩
      · rw [freeUserPgtable]
        rw [if_neg hnot, hu]
        dsimp only
        rw [hloop, Except.ok_bind, if_neg hnot', ← List.append_assoc]
        rfl
      · rw [hcount, List.range'_succ]
        exact (List.perm_append_singleton _ _).trans (hperm.cons _)

end Shape

/-! ### What the callers rely on -/

/-- The nodes are what the lookup and the deallocation take them for: a slot is not null exactly
when its entry is a valid table entry at its level, the lookup goes down the path of the address
and aborts exactly when a table is missing, and the deallocation frees the nodes that were
built, each once, and nothing else. -/
structure UserNodesOk (value : List Nat) (base : Nat) (heap : List UserPgtable) (userPgt : UserPtr) :
    Prop where
  slot : ∀ n j, (n, j) ∈ dumpTables value 3 0 → ∃ u, heap[base + j]? = some u ∧
    ∀ i w, (dumpTable value j)[i]? = some w → (u.pgd i ≠ .null ↔ pteIsValid w (3 - n) = true)
  lookup : ∀ gaddr level, level ≤ midgardMmuBottomlevel →
    grGetUserPgdAtLevel heap userPgt gaddr level
      = match dumpPath value gaddr level 3 0 with
        | some k => .ok (.node (base + k))
        | none => .error (.abort "cannot get target pgd")
  free : ∃ fuel freed, freeUserPgtable heap fuel userPgt [] = .ok freed ∧ freed.Nodup ∧
    ∀ k, k ∈ freed ↔ base ≤ k ∧ k < heap.length

section Nodes

variable {value : List Nat} {junk : Nat → Nat → UserPtr} {m : Machine} {b : Built}

theorem slotsNull_of_nodesOk (hlen : value.length < 2 ^ 32)
    (hbuild : grConstructPgt junk value 3 0 m = .ok b)
    (h : UserNodesOk value m.heap.length b.machine.heap b.userPgd) :
    SlotsNull value junk m.heap.length 3 0 := by
  have hbuilt := grConstructPgt_shape hlen 3 0 m b (Nat.zero_le _) rfl hbuild
  intro n j hmem i w hw hpte
  obtain ⟨u, hu, hslot⟩ := h.slot n j hmem
  obtain ⟨v, hv, hshape⟩ := hbuilt.shape.slot hmem
  obtain rfl := Option.some.inj (hu.symm.trans hv)
  rw [← (hshape i w hw).2 hpte]
  refine Decidable.not_not.mp fun hne => ?_
  rw [(hslot i w hw).mp hne] at hpte
  cases hpte

theorem nodesOk_of_slotsNull (hlen : value.length < 2 ^ 32)
    (hbuild : grConstructPgt junk value 3 0 m = .ok b)
    (hnull : SlotsNull value junk m.heap.length 3 0) :
    UserNodesOk value m.heap.length b.machine.heap b.userPgd := by
  have hbuilt := grConstructPgt_shape hlen 3 0 m b (Nat.zero_le _) rfl hbuild
  have hptr := hbuilt.userPgd
  refine ⟨fun n j hmem => ?_, fun gaddr level hlevel => ?_, ?_⟩
  · obtain ⟨u, hu, hslot⟩ := hbuilt.shape.slot hmem
    refine ⟨u, hu, fun i w hw => ?_⟩
    obtain ⟨hvalid, hinvalid⟩ := hslot i w hw
    cases hpte : pteIsValid w (3 - n) with
    | true =>
        obtain ⟨c, hc⟩ := hvalid hpte
        rw [hc]
        exact ⟨fun _ => rfl, fun _ h => by cases h⟩
    | false =>
        rw [hinvalid hpte, hnull n j hmem i w hw hpte]
        exact ⟨fun h => absurd rfl h, fun h => by cases h⟩
  · rw [hptr]
    exact hbuilt.shape.lookup hlevel (Nat.le_refl 3) hnull
  · obtain ⟨freed, hrun, hperm⟩ := @freeUserPgtable_shape _ _ _ _ 3 0 hbuilt.shape hnull 4 []
      (by decide) fun k hk => absurd hk List.not_mem_nil
    refine ⟨4, freed, by rw [hptr]; exact hrun, hperm.nodup_iff.mpr List.nodup_range', fun k => ?_⟩
    rw [hperm.mem_iff, List.mem_range'_1, hbuilt.grown]
    rfl

/-- **The nodes are what their users take them for exactly when the slots that were never
assigned were null.** -/
theorem userNodesOk_iff (hlen : value.length < 2 ^ 32)
    (hbuild : grConstructPgt junk value 3 0 m = .ok b) :
    UserNodesOk value m.heap.length b.machine.heap b.userPgd ↔
      SlotsNull value junk m.heap.length 3 0 :=
  ⟨slotsNull_of_nodesOk hlen hbuild, nodesOk_of_slotsNull hlen hbuild⟩

end Nodes

/-! ### A node whose memory was not null -/

/-- One table, without an entry. -/
def rootValue : List Nat := blocks (pageMem fun _ _ => entryInvalidate) 3 (4096 * 1)

def rootMachine : Machine := ⟨fun _ => 0, frames 1 1, []⟩

theorem length_rootValue : rootValue.length < 2 ^ 32 := by
  unfold rootValue
  rw [length_blocks, laidOut_root.length]
  decide

theorem root_built (junk : Nat → Nat → UserPtr) :
    ∃ b, grConstructPgt junk rootValue 3 0 rootMachine = .ok b := by
  obtain ⟨b, hbuild, -⟩ := @grConstructPgt_built (pageMem fun _ _ => entryInvalidate) rootValue junk
    length_rootValue 3 (4096 * 1) [] [] rootMachine laidOut_root.written
    (by rw [List.nil_append, List.append_nil]; rfl) (poolOk_frames (by decide))
    (by rw [laidOut_root.length]; decide)
  exact ⟨b, hbuild⟩

/-- Its node is in order where the memory held nothing. -/
theorem userNodesOk_root :
    rootValue.length < 2 ^ 32 ∧
    ∃ b, grConstructPgt nullJunk rootValue 3 0 rootMachine = .ok b ∧
      UserNodesOk rootValue 0 b.machine.heap b.userPgd := by
  obtain ⟨b, hbuild⟩ := root_built nullJunk
  exact ⟨length_rootValue, b, hbuild,
    (userNodesOk_iff length_rootValue hbuild).mpr fun _ _ _ _ _ _ _ => rfl⟩

/-- A valid entry would announce a second table. -/
theorem rootValue_invalid {junk : Nat → Nat → UserPtr} {m : Machine} {b : Built}
    (h : ShapeBuilt rootValue junk 0 3 0 m b) {i w : Nat} (hw : (dumpTable rootValue 0)[i]? = some w) :
    pteIsValid w (3 - (2 + 1)) = false := by
  cases hpte : pteIsValid w (3 - (2 + 1)) with
  | false => rfl
  | true =>
      have hpos := List.length_pos_of_mem (childAt_mem hw hpte)
      have hinside := h.inside
      have hcount : (dumpTables rootValue 3 0).length
          = (tablesOf (dumpTables rootValue 2) (3 - (2 + 1)) (dumpTable rootValue 0) 0).length + 1 := by
        rw [dumpTables, List.length_cons]
      have hsize : rootValue.length = 513 := by
        unfold rootValue
        rw [length_blocks, laidOut_root.length]
      omega

/-- Where the memory held something else, it is not. -/
theorem root_slots_wild :
    ∃ b, grConstructPgt (fun _ _ => .wild) rootValue 3 0 rootMachine = .ok b ∧
      ¬ UserNodesOk rootValue 0 b.machine.heap b.userPgd := by
  obtain ⟨b, hbuild⟩ := root_built fun _ _ => .wild
  refine ⟨b, hbuild, fun h => ?_⟩
  have hnull := slotsNull_of_nodesOk length_rootValue hbuild h
  have hbuilt := grConstructPgt_shape length_rootValue 3 0 rootMachine b (Nat.zero_le _) rfl hbuild
  obtain ⟨w, hw⟩ := hbuilt.shape.word (i := 0) (by decide)
  exact absurd (hnull 3 0 (mem_dumpTables rootValue 3 0) 0 w hw (rootValue_invalid hbuilt hw))
    fun h => by cases h

end GpuReplay.Replayer
