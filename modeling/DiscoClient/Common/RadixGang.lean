import DiscoClient.Common.RadixTreeMap
import DiscoClient.Lib.OrderedMap

/-! Gang lookups in a radix tree, and the tree as the map that its users take it for. -/
namespace DiscoClient.RadixTree
open List
variable {α β : Type} {root : Root α} {index : Nat}

/-- The items of a range of keys, in the order of the keys. -/
def itemsIn (g : Nat → Option α) (start stop : Nat) : List α := (List.range' start (stop - start)).filterMap g

theorem itemsIn_append (g : Nat → Option α) {a b c : Nat} (hab : a ≤ b) (hbc : b ≤ c) :
    itemsIn g a c = itemsIn g a b ++ itemsIn g b c := by
  have hsum : c - a = (b - a) + (c - b) := by omega
  have hmid : b = a + 1 * (b - a) := by omega
  rw [itemsIn, itemsIn, itemsIn, hsum, ← range'_append, filterMap_append, ← hmid]

theorem itemsIn_congr {f g : Nat → Option α} {a b : Nat} (h : ∀ k, a ≤ k → k < b → f k = g k) :
    itemsIn f a b = itemsIn g a b := by
  refine filterMap_congr fun k hk => ?_
  have hrange := mem_range'_1.mp hk
  exact h k hrange.1 (by omega)

theorem itemsIn_eq_nil {g : Nat → Option α} {a b : Nat} (h : ∀ k, a ≤ k → k < b → g k = none) : itemsIn g a b = [] :=
  (itemsIn_congr h).trans (filterMap_none _)

theorem itemsIn_one (g : Nat → Option α) (a : Nat) : itemsIn g a (a + 1) = (g a).toList := by
  rw [itemsIn, Nat.add_sub_cancel_left]
  cases h : g a <;> simp [h]

theorem itemsIn_self (g : Nat → Option α) (a : Nat) : itemsIn g a a = [] := by
  rw [itemsIn, Nat.sub_self]
  rfl

theorem grabItems_succ {slots : Nat → Option α} {maxItems : Nat} (n i index : Nat) {found : List α}
    (hlen : found.length < maxItems) : grabItems slots maxItems (n + 1) i index found =
      if (found ++ (slots i).toList).length = maxItems then (found ++ (slots i).toList, (index + 1) % 2 ^ 64)
      else grabItems slots maxItems n (i + 1) ((index + 1) % 2 ^ 64) (found ++ (slots i).toList) := by
  rw [grabItems]
  cases slots i with
  | none => rw [Option.toList_none, append_nil, if_neg hlen.ne]
  | some item => rfl

/-- The bottom loop takes the items from its index on up to the end of the node or to the limit. The
index may be one past the largest key, which the loop has as zero. -/
theorem grabItems_spec {slots g : Nat → Option α} {maxItems base : Nat} (hg : ∀ i < 64, g (64 * base + i) = slots i)
    (n : Nat) {i index : Nat} {found : List α} (hi : i + n = 64) (hidx : index = 64 * base + i)
    (hlen : found.length < maxItems) :
    ∃ stop, index ≤ stop ∧ (0 < n → index < stop) ∧ stop ≤ 64 * (base + 1) ∧
      (found ++ itemsIn g index stop).length ≤ maxItems ∧
      grabItems slots maxItems n i (index % 2 ^ 64) found = (found ++ itemsIn g index stop, stop % 2 ^ 64) := by
  induction n generalizing i index found with
  | zero =>
    have hself : found ++ itemsIn g index index = found := by rw [itemsIn_self, append_nil]
    refine ⟨index, Nat.le_refl _, fun h => absurd h (Nat.lt_irrefl 0), by omega, ?_, ?_⟩
    · rw [hself]
      exact hlen.le
    · rw [hself]
      rfl
  | succ n ih =>
    have hone : itemsIn g index (index + 1) = (slots i).toList := by rw [itemsIn_one, hidx, hg i (by omega)]
    have hle : (found ++ (slots i).toList).length ≤ maxItems := by
      cases slots i <;> simp <;> omega
    rw [grabItems_succ n i _ hlen, Nat.mod_add_mod]
    by_cases hfull : (found ++ (slots i).toList).length = maxItems
    · rw [if_pos hfull]
      exact ⟨index + 1, Nat.le_succ _, fun _ => Nat.lt_succ_self _, by omega, by rw [hone]; exact hle, by rw [hone]⟩
    · rw [if_neg hfull]
      obtain ⟨stop, hstop, -, hblock, hmax, hgrab⟩ :=
        ih (show i + 1 + n = 64 by omega) (show index + 1 = 64 * base + (i + 1) by omega) (Nat.lt_of_le_of_ne hle hfull)
      rw [← hone, append_assoc, ← itemsIn_append g (Nat.le_succ index) hstop] at hmax hgrab
      rw [← hone]
      exact ⟨stop, Nat.le_of_succ_le hstop, fun _ => hstop, hblock, hmax, hgrab⟩

/-- The first key past the child that a key belongs to. -/
theorem next_block {h index : Nat} (hh : h ≤ 10) (hlt : index < 2 ^ 64) :
    index - index % 64 ^ h + 64 ^ h = 64 ^ h * (index / 64 ^ h + 1) ∧ index < 64 ^ h * (index / 64 ^ h + 1) ∧
      64 ^ h * (index / 64 ^ h + 1) ≤ 2 ^ 64 := by
  have hpow : 0 < 64 ^ h := Nat.pow_pos (by decide)
  have hsplit := Nat.div_add_mod index (64 ^ h)
  have hmod := Nat.mod_lt index hpow
  obtain ⟨c, hc⟩ : 64 ^ h ∣ 2 ^ 64 := by
    rw [← two_pow_shift]
    exact pow_dvd_pow 2 (by rw [mapShift]; omega)
  have hdiv : index / 64 ^ h < c := Nat.div_lt_of_lt_mul (hc ▸ hlt)
  refine ⟨?_, ?_, ?_⟩
  · rw [Nat.mul_add_one]
    omega
  · rw [Nat.mul_add_one]
    omega
  · rw [hc]
    exact Nat.mul_le_mul_left _ hdiv

/-- A loop above the bottom passes over keys that have no child; it stops at a child, at the end of the
node, or where the index wraps around. -/
theorem seekSlot_spec {h base : Nat} (hh : h ≤ 10) (slots : Nat → Option β) (n : Nat) {i index : Nat} (hi : i + n = 64)
    (hidx : index / 64 ^ h = 64 * base + i) (hlt : index < 2 ^ 64) :
    ∃ stop, index ≤ stop ∧ (∀ k, index ≤ k → k < stop → slots (offset h k) = none) ∧
      ((seekSlot h slots n i index = (none, stop % 2 ^ 64) ∧ (0 < n → index < stop) ∧ stop ≤ 2 ^ 64 ∧
          (index < stop → stop ≤ 64 ^ h * (64 * base + 64))) ∨
        ∃ child, seekSlot h slots n i index = (some child, stop) ∧ stop < 2 ^ 64 ∧ slots (offset h stop) = some child ∧
          stop / 64 ^ (h + 1) = base) := by
  induction n generalizing i index with
  | zero =>
    refine ⟨index, Nat.le_refl _, fun k hk hk' => absurd hk (Nat.not_le.mpr hk'), .inl ⟨?_, ?_, hlt.le, ?_⟩⟩
    · rw [seekSlot, Nat.mod_eq_of_lt hlt]
    · exact fun h => absurd h (Nat.lt_irrefl 0)
    · exact fun h => absurd h (Nat.lt_irrefl _)
  | succ n ih =>
    have hoff {k : Nat} (hk : k / 64 ^ h = index / 64 ^ h) : offset h k = i := by
      rw [offset_eq, hk, hidx]
      omega
    obtain ⟨hnext, hgt, hle⟩ := next_block hh hlt
    have hblock : 64 ^ h * (index / 64 ^ h + 1) ≤ 64 ^ h * (64 * base + 64) := Nat.mul_le_mul_left _ (by omega)
    rw [seekSlot, two_pow_shift, hnext]
    split
    · next child hchild =>
      refine ⟨index, Nat.le_refl _, fun k hk hk' => absurd hk (Nat.not_le.mpr hk'), .inr ⟨child, rfl, hlt, ?_, ?_⟩⟩
      · rw [hoff rfl, hchild]
      · rw [Nat.pow_succ, ← Nat.div_div_eq_div_mul, hidx]
        omega
    · next hnone =>
      generalize hn : 64 ^ h * (index / 64 ^ h + 1) = next at hgt hle hblock
      have hempty (k : Nat) (hk : index ≤ k) (hk' : k < next) : slots (offset h k) = none := by
        rw [hoff, hnone]
        refine Nat.le_antisymm (Nat.lt_succ_iff.mp (Nat.div_lt_of_lt_mul (hn ▸ hk'))) (Nat.div_le_div_right hk)
      by_cases hwrap : next % 2 ^ 64 = 0
      · have htop : next = 2 ^ 64 := by omega
        rw [if_pos hwrap]
        exact ⟨next, hgt.le, hempty, .inl ⟨by rw [hwrap], fun _ => hgt, hle, fun _ => hblock⟩⟩
      · have hmod : next % 2 ^ 64 = next := Nat.mod_eq_of_lt (by omega)
        have hquot : next / 64 ^ h = 64 * base + (i + 1) := by
          rw [← hn, Nat.mul_div_cancel_left _ (Nat.pow_pos (by decide)), hidx]
          rfl
        rw [if_neg hwrap, hmod]
        obtain ⟨stop, hstop, hskip, hend⟩ := ih (by omega) hquot (by omega)
        refine ⟨stop, hgt.le.trans hstop, fun k hk hk' => ?_, ?_⟩
        · by_cases hkn : k < next
          · exact hempty k hk hkn
          · exact hskip k (Nat.le_of_not_lt hkn) hk'
        · rcases hend with ⟨hseek, -, htop, hbound⟩ | hchild
          · refine .inl ⟨hseek, fun _ => hgt.trans_le hstop, htop, fun _ => ?_⟩
            rcases hstop.eq_or_lt with rfl | hlater
            · exact hblock
            · exact hbound hlater
          · exact .inr hchild

/-- __lookup below a node takes the items from its index on, up to the index it hands back. -/
theorem lookupNode_spec {maxItems : Nat} (hmax : 0 < maxItems) {h : Nat} (hh : h ≤ 10) (node : Node (Cell α h)) (hlt : index < 2 ^ 64) :
    ∃ stop, index < stop ∧ stop ≤ 2 ^ 64 ∧ stop ≤ 64 ^ (h + 1) * (index / 64 ^ (h + 1) + 1) ∧
      (itemsIn (fun k => get k (h + 1) (some node)) index stop).length ≤ maxItems ∧
      lookupNode maxItems h node index = (itemsIn (fun k => get k (h + 1) (some node)) index stop, stop % 2 ^ 64) := by
  induction h generalizing index with
  | zero =>
    have hoff (k : Nat) : offset 0 k = k % 64 := by rw [offset_eq, Nat.pow_zero, Nat.div_one]
    have hslots : ∀ i < 64, get (64 * (index / 64) + i) 1 (some node) = node.slots i := by
      intro i hi
      rw [get_node, hoff]
      exact congrArg node.slots (by omega)
    have hindex : index = 64 * (index / 64) + offset 0 index := by
      rw [hoff]
      omega
    obtain ⟨stop, -, hgt, hle, hlen, hgrab⟩ :=
      grabItems_spec (g := fun k => get k 1 (some node)) hslots (mapSize - offset 0 index) (by rw [mapSize, hoff]; omega)
        hindex (length_nil.trans_lt hmax)
    rw [Nat.mod_eq_of_lt hlt] at hgrab
    exact ⟨stop, hgt (by rw [mapSize, hoff]; omega), by omega, hle, hlen, hgrab⟩
  | succ h ih =>
    have hbase : index / 64 ^ (h + 1) = 64 * (index / 64 ^ (h + 2)) + offset (h + 1) index := by
      rw [offset_eq, Nat.pow_succ 64 (h + 1), ← Nat.div_div_eq_div_mul]
      omega
    have hoff := offset_lt (h + 1) index
    obtain ⟨stop, hstop, hskip, hend⟩ := seekSlot_spec hh node.slots (mapSize - offset (h + 1) index)
      (by rw [mapSize]; omega) hbase hlt
    have hnil : itemsIn (fun k => get k (h + 2) (some node)) index stop = [] := by
      refine itemsIn_eq_nil fun k hk hk' => ?_
      rw [get_node, hskip k hk hk', get_none]
    rw [lookupNode]
    rcases hend with ⟨hseek, hgt, htop, hbound⟩ | ⟨child, hseek, htop, hchild, hsame⟩
    · have hlater := hgt (by rw [mapSize]; omega)
      rw [hseek]
      exact ⟨stop, hlater, htop, (hbound hlater).trans_eq (by ring), by rw [hnil]; exact Nat.zero_le _, by rw [hnil]⟩
    · obtain ⟨stop', hlater, htop', hblock, hlen, hfound⟩ := ih (Nat.le_of_succ_le hh) child htop
      have hitems : itemsIn (fun k => get k (h + 2) (some node)) index stop' =
          itemsIn (fun k => get k (h + 1) (some child)) stop stop' := by
        rw [itemsIn_append _ hstop hlater.le, hnil, nil_append]
        refine itemsIn_congr fun k hk hk' => ?_
        have hquot : k / 64 ^ (h + 1) = stop / 64 ^ (h + 1) :=
          Nat.le_antisymm (Nat.lt_succ_iff.mp (Nat.div_lt_of_lt_mul (hk'.trans_le hblock))) (Nat.div_le_div_right hk)
        rw [get_node, offset_eq, hquot, ← offset_eq, hchild]
      rw [hseek]
      refine ⟨stop', hstop.trans_lt hlater, htop', hblock.trans ?_, by rw [hitems]; exact hlen, by rw [hitems]; exact hfound⟩
      rw [← hsame, Nat.pow_succ 64 (h + 1), ← Nat.div_div_eq_div_mul, Nat.mul_assoc]
      exact Nat.mul_le_mul_left _ (by omega)

/-- The root node is there, if the height says so. -/
def Root.Rooted (root : Root α) : Prop := root.height = 0 ∨ root.rnode.isSome

instance (root : Root α) : Decidable root.Rooted := inferInstanceAs (Decidable (_ ∨ _))

/-- __lookup on a tree whose root node is there: it hands back zero when no key is left. -/
theorem lookup_spec (hs : root.Sound) (hroot : root.Rooted) {cur maxItems : Nat}
    (hcur : cur ≤ maxindex root.height) (hmax : 0 < maxItems) :
    ∃ stop next, cur < stop ∧ stop ≤ 2 ^ 64 ∧ (itemsIn root.find cur stop).length ≤ maxItems ∧
      lookup root.height root.rnode cur maxItems = some (itemsIn root.find cur stop, next) ∧
      ((next = 0 ∧ ∀ k, stop ≤ k → root.find k = none) ∨ (next = stop ∧ 0 < next ∧ next < 2 ^ 64)) := by
  have hmaxindex := maxindex_eq root.height
  obtain ⟨h, slot⟩ := root
  cases h with
  | zero =>
    have hzero : maxindex 0 = 0 := rfl
    obtain rfl : cur = 0 := Nat.le_zero.mp (hcur.trans_eq hzero)
    have hone : itemsIn (⟨0, slot⟩ : Root α).find 0 1 = slot.toList := itemsIn_one _ 0
    refine ⟨1, 0, Nat.one_pos, by decide, ?_, ?_, .inl ⟨rfl, fun k hk => if_pos (hzero.trans_lt hk)⟩⟩
    · rw [hone]
      cases slot
      · exact Nat.zero_le _
      · exact hmax
    · rw [hone]
      rfl
  | succ h =>
    have hsome : slot.isSome := hroot.resolve_left (Nat.succ_ne_zero h)
    obtain ⟨node, rfl⟩ := Option.isSome_iff_exists.mp hsome
    have hh : h + 1 ≤ 11 := hs.height_le
    have hcur' : cur ≤ maxindex (h + 1) := hcur
    have hmaxindex' : maxindex (h + 1) + 1 = min (64 ^ (h + 1)) (2 ^ 64) := hmaxindex
    obtain ⟨stop, hlater, htop, hblock, hlen, hfound⟩ := lookupNode_spec hmax (Nat.le_of_succ_le_succ hh) node
      (show cur < 2 ^ 64 by omega)
    rw [Nat.div_eq_of_lt (lt_pow_of_le_maxindex hcur'), Nat.zero_add, Nat.mul_one] at hblock
    have hitems : itemsIn (fun k => get k (h + 1) (some node)) cur stop = itemsIn (⟨h + 1, some node⟩ : Root α).find cur stop :=
      itemsIn_congr fun k _ hk => (if_neg (show ¬maxindex (h + 1) < k by omega)).symm
    rw [hitems] at hlen hfound
    refine ⟨stop, stop % 2 ^ 64, hlater, htop, hlen, congrArg some hfound, ?_⟩
    rcases htop.eq_or_lt with rfl | hless
    · exact .inl ⟨rfl, fun k hk => if_pos (show maxindex (h + 1) < k by omega)⟩
    · rw [Nat.mod_eq_of_lt hless]
      exact .inr ⟨rfl, by omega, hless⟩

theorem gangLoop_spec (hs : root.Sound) (hroot : root.Rooted) (maxItems : Nat)
    (n : Nat) {first cur : Nat} (hcur : first ≤ cur) (hlt : cur < 2 ^ 64) (hn : 2 ^ 64 - cur < n)
    (hlen : (itemsIn root.find first cur).length ≤ maxItems) :
    ∃ stop, first ≤ stop ∧ gangLoop root maxItems n cur (itemsIn root.find first cur) = some (itemsIn root.find first stop) ∧
      (itemsIn root.find first stop).length ≤ maxItems ∧
      ((itemsIn root.find first stop).length = maxItems ∨ ∀ k, stop ≤ k → root.find k = none) := by
  induction n generalizing cur with
  | zero => exact absurd hn (Nat.not_lt_zero _)
  | succ n ih =>
    rw [gangLoop]
    by_cases hgo : (itemsIn root.find first cur).length < maxItems ∧ cur ≤ maxindex root.height
    · obtain ⟨stop, next, hlater, htop, hitems, hlook, hnext⟩ := lookup_spec hs hroot hgo.2 (Nat.sub_pos_of_lt hgo.1)
      have happ := itemsIn_append root.find hcur hlater.le
      have hlen' : (itemsIn root.find first stop).length ≤ maxItems := by
        rw [happ, length_append]
        omega
      simp only [if_pos hgo, hlook, ← happ]
      rcases hnext with ⟨rfl, hrest⟩ | ⟨rfl, hpos, hless⟩
      · exact ⟨stop, hcur.trans hlater.le, if_pos rfl, hlen', .inr hrest⟩
      · rw [if_neg hpos.ne']
        exact ih (hcur.trans hlater.le) hless (by omega) hlen'
    · rw [if_neg hgo]
      refine ⟨cur, hcur, rfl, hlen, ?_⟩
      rcases Nat.lt_or_ge (itemsIn root.find first cur).length maxItems with hroom | hfull
      · exact .inr fun k hk => if_pos (by have := not_and.mp hgo hroom; omega)
      · exact .inl (Nat.le_antisymm hlen hfull)

/-- dms_radix_tree_gang_lookup: the items of the first keys from one on, at most as many as asked for. -/
theorem Root.Sound.gangLookup_spec (hs : root.Sound) (hroot : root.Rooted)
    {first : Nat} (hfirst : first < 2 ^ 64) (maxItems : Nat) :
    ∃ stop, first ≤ stop ∧ root.gangLookup first maxItems = some (itemsIn root.find first stop) ∧
      (itemsIn root.find first stop).length ≤ maxItems ∧
      ((itemsIn root.find first stop).length = maxItems ∨ ∀ k, stop ≤ k → root.find k = none) := by
  have hself := itemsIn_self root.find first
  have hspec := gangLoop_spec hs hroot maxItems (2 ^ 64 + 1) (Nat.le_refl first) hfirst (by omega)
    (by rw [hself]; exact Nat.zero_le _)
  rwa [hself] at hspec

/-! ### The tree and the map -/

inductive Call (α : Type) where
  | insert (index : UInt64) (item : α) (mem : List Bool)
  | delete (index : UInt64)

def Call.key : Call α → Nat
  | .insert index _ _ => index.toNat
  | .delete index => index.toNat

/-- The allocations of a call. -/
def Call.mem : Call α → List Bool
  | .insert _ _ mem => mem
  | .delete _ => []

/-- A tree, and the map that its user takes it for: an insertion that fails is not in it. -/
structure Tracked (α : Type) where
  root : Root α
  map : OrderedMap α

namespace Tracked

def init : Tracked α := ⟨.init, .empty⟩

def step (s : Tracked α) : Call α → Tracked α
  | .insert index item mem =>
    let r := s.root.insert index.toNat item mem
    ⟨r.1, if r.2.isSome then s.map.insert index.toNat item else s.map⟩
  | .delete index => ⟨(s.root.delete index.toNat).1, s.map.erase index.toNat⟩

def run (calls : List (Call α)) : Tracked α := calls.foldl step init

structure Agrees (s : Tracked α) : Prop where
  sound : s.root.Sound
  find_eq : ∀ k, s.root.find k = s.map.lookup k

theorem Agrees.step {s : Tracked α} (h : s.Agrees) (call : Call α) : (s.step call).Agrees := by
  cases call with
  | insert index item mem =>
    obtain ⟨hsound, hanswer⟩ := h.sound.stored_insert index.toNat_lt item mem
    refine ⟨hsound, fun k => ?_⟩
    rw [Tracked.step]
    match (s.root.insert index.toNat item mem).2, hanswer with
    | none, ⟨_, _, hsame⟩ => exact (hsame k).trans (h.find_eq k)
    | some old, ⟨_, hnew⟩ =>
      refine (hnew k).trans ?_
      change _ = (s.map.insert index.toNat item).lookup k
      split
      · next heq => rw [heq, s.map.lookup_insert_self]
      · next hne => rw [s.map.lookup_insert_of_ne hne, h.find_eq]
  | delete index =>
    obtain ⟨hsound, -, hgone⟩ := h.sound.delete_spec index.toNat
    refine ⟨hsound, fun k => (hgone k).trans ?_⟩
    change _ = (s.map.erase index.toNat).lookup k
    split
    · next heq => rw [heq, s.map.lookup_erase_self]
    · next hne => rw [s.map.lookup_erase_of_ne hne, h.find_eq]

theorem agrees_run (calls : List (Call α)) : (run calls).Agrees :=
  List.foldlRecOn calls step ⟨⟨Nat.zero_le _, fun c hc => absurd hc (Option.not_mem_none c)⟩, fun k => find_none 0 k⟩
    fun _ h call _ => h.step call

def answer (s : Tracked α) : Call α → Option (Option α)
  | .insert index item mem => (s.root.insert index.toNat item mem).2
  | .delete index => some (s.root.delete index.toNat).2

/-- Whatever was called before, a call answers the item that the map has for its key. Only an insertion of a
new key can fail instead, and only if an allocation does. -/
theorem answer_eq_lookup (calls : List (Call α)) (call : Call α) :
    (run calls).answer call = some ((run calls).map.lookup call.key) ∨
      ((run calls).answer call = none ∧ (run calls).map.lookup call.key = none ∧ false ∈ call.mem) := by
  have h := agrees_run calls
  rw [← h.find_eq]
  cases call with
  | insert index item mem =>
    obtain ⟨-, hanswer⟩ := h.sound.stored_insert index.toNat_lt item mem
    rw [answer]
    match ((run calls).root.insert index.toNat item mem).2, hanswer with
    | none, ⟨hfalse, hnone, _⟩ => exact .inr ⟨rfl, hnone, hfalse⟩
    | some old, ⟨hold, _⟩ => exact .inl (congrArg some hold)
  | delete index => exact .inl (congrArg some (h.sound.delete_spec index.toNat).2.1)

theorem values_gang (m : OrderedMap α) (maxItems : Nat) {first stop : Nat} (hle : first ≤ stop)
    (hlen : (itemsIn m.lookup first stop).length ≤ maxItems)
    (hend : (itemsIn m.lookup first stop).length = maxItems ∨ ∀ k, stop ≤ k → m.lookup k = none) :
    (m.gang first maxItems).map Prod.snd = itemsIn m.lookup first stop := by
  rw [itemsIn, ← m.values_hits, length_map] at hlen hend
  rw [itemsIn, ← m.values_hits, m.gang_eq_hits hlen (by rwa [Nat.add_sub_cancel' hle])]

theorem gangLookup_hollow (h first maxItems : Nat) : (⟨h + 1, none⟩ : Root α).gangLookup first maxItems =
    if 0 < maxItems ∧ first ≤ maxindex (h + 1) then none else some [] := by
  rw [Root.gangLookup, gangLoop]
  rfl

theorem Agrees.gangLookup_eq {s : Tracked α} (h : s.Agrees) (hroot : s.root.Rooted)
    (first : UInt64) (maxItems : Nat) :
    s.root.gangLookup first.toNat maxItems = some ((s.map.gang first.toNat maxItems).map Prod.snd) := by
  obtain ⟨stop, hle, hgang, hlen, hend⟩ := h.sound.gangLookup_spec hroot first.toNat_lt maxItems
  rw [funext h.find_eq] at hgang hlen hend
  rw [hgang, values_gang _ _ hle hlen hend]

/-- Whatever was called before, a gang lookup finds what the map has from the key on, unless it reads the
slots of a root node that is not there. -/
theorem gangLookup_eq_gang (calls : List (Call α)) (first : UInt64) (maxItems : Nat) :
    (run calls).root.gangLookup first.toNat maxItems =
      if ¬(run calls).root.Rooted ∧ 0 < maxItems ∧ first.toNat ≤ maxindex (run calls).root.height then none
      else some (((run calls).map.gang first.toNat maxItems).map Prod.snd) := by
  have h := agrees_run calls
  generalize run calls = s at h
  obtain ⟨⟨height, slot⟩, m⟩ := s
  match height, slot with
  | 0, slot => rw [h.gangLookup_eq (.inl rfl), if_neg fun hc => hc.1 (.inl rfl)]
  | n + 1, some node => rw [h.gangLookup_eq (.inr rfl), if_neg fun hc => hc.1 (.inr rfl)]
  | n + 1, none =>
    have hempty (k : Nat) : m.lookup k = none := (h.find_eq k).symm.trans (find_none (n + 1) k)
    have hgang := values_gang m maxItems (Nat.le_refl first.toNat)
      (by rw [itemsIn_self]; exact Nat.zero_le _) (.inr fun k _ => hempty k)
    rw [gangLookup_hollow, hgang, itemsIn_self]
    have hbare : ¬(⟨n + 1, none⟩ : Root α).Rooted := fun hc => hc.elim (Nat.succ_ne_zero n) Bool.false_ne_true
    exact if_congr (iff_and_self.mpr fun _ => hbare) rfl rfl

-- one failed allocation leaves an empty tree in which the next lookup reads through a null pointer
example : (run [Call.insert 1 'a' [false]]).root.gangLookup 1 1 = none := by decide

theorem rooted_place {item : α} {r : Root α × Bool × List Bool} {old : Option α}
    (h : (place index item r).2 = some old) : (place index item r).1.Rooted := by
  obtain ⟨⟨height, slot⟩, ok, mem⟩ := r
  cases ok with
  | false => cases h
  | true =>
    cases height with
    | zero => exact .inl rfl
    | succ n =>
      rcases insertAt_succ index item slot mem with ⟨-, -, heq⟩ | ⟨node, rest, -, -, -, heq⟩
      · exact absurd ((congrArg Prod.snd heq).symm.trans h) (Option.some_ne_none old).symm
      · exact .inr (congrArg Option.isSome (congrArg Prod.fst heq))

theorem rooted_shrink (h : Nat) (cell : Cell α h) : (shrink h cell).Rooted := by
  induction h with
  | zero => exact .inl rfl
  | succ h ih =>
    rw [shrink]
    split
    · split
      · exact ih _
      · exact .inr rfl
    · exact .inr rfl

theorem rooted_delete (h : root.Rooted) (index : Nat) : (root.delete index).1.Rooted := by
  rw [Root.delete]
  split
  · exact h
  · split
    · exact h
    · next left _ =>
      cases left with
      | none => exact .inl rfl
      | some left =>
        rw [afterDelete]
        split
        · exact rooted_shrink _ _
        · exact .inr rfl

/-- As long as every allocation succeeds, no gang lookup reads through a null pointer. -/
theorem gangLookup_of_allocated (calls : List (Call α)) (hmem : ∀ call ∈ calls, false ∉ call.mem) (first : UInt64)
    (maxItems : Nat) : (run calls).root.gangLookup first.toNat maxItems =
      some (((run calls).map.gang first.toNat maxItems).map Prod.snd) := by
  refine (agrees_run calls).gangLookup_eq ?_ first maxItems
  refine (List.foldlRecOn (motive := fun s => s.Agrees ∧ s.root.Rooted) calls step
    ⟨agrees_run [], .inl rfl⟩ ?_).2
  rintro s ⟨hs, hroot⟩ call hcall
  refine ⟨hs.step call, ?_⟩
  cases call with
  | insert index item mem =>
    obtain ⟨-, hanswer⟩ := hs.sound.stored_insert index.toNat_lt item mem
    match hr : (s.root.insert index.toNat item mem).2, hanswer with
    | none, ⟨hfalse, _⟩ => exact absurd hfalse (hmem _ hcall)
    | some old, _ => exact rooted_place hr
  | delete index => exact rooted_delete hroot index.toNat

theorem gangLookup_of_allocated_pair :
    (run [.insert 5000 'a' [true], .insert 1 'b' [], .delete 5000]).root.gangLookup 1 2 =
      some (((run [.insert 5000 'a' [true], .insert 1 'b' [], .delete 5000]).map.gang 1 2).map Prod.snd) :=
  gangLookup_of_allocated _ (by decide) 1 2

end Tracked
end DiscoClient.RadixTree
