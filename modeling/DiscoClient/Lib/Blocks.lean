import DiscoClient.Lib.Slices

/-! Memory that is written piece by piece, and memory that lies in blocks of one size. -/

open List

def overwrite {α : Type*} (l : List α) (off : Nat) (data : List α) : List α :=
  l.take off ++ data ++ l.drop (off + data.length)

namespace Overwrite
variable {α : Type*} {l data data' : List α} {off n i : Nat}

theorem length_overwrite (h : off + data.length ≤ l.length) : (overwrite l off data).length = l.length := by
  rw [overwrite, length_append, length_append, length_take, length_drop]
  omega

theorem overwrite_nil (l : List α) (off : Nat) : overwrite l off [] = l := by
  rw [overwrite, append_nil, length_nil, Nat.add_zero, take_append_drop]

section

variable (h : off ≤ l.length)
include h

theorem getElem?_of_lt (hi : i < off) : (overwrite l off data)[i]? = l[i]? := by
  rw [overwrite, append_assoc, List.getElem?_append_left (by rw [length_take]; omega), List.getElem?_take_of_lt hi]

theorem getElem?_of_mem (hi : i < data.length) : (overwrite l off data)[off + i]? = data[i]? := by
  rw [overwrite, append_assoc, List.getElem?_append_right (by rw [length_take]; omega), length_take,
    Nat.min_eq_left h, Nat.add_sub_cancel_left, List.getElem?_append_left hi]

theorem getElem?_of_ge (hi : off + data.length ≤ i) : (overwrite l off data)[i]? = l[i]? := by
  rw [overwrite, List.getElem?_append_right (by rw [length_append, length_take]; omega), List.getElem?_drop,
    length_append, length_take, Nat.min_eq_left h, Nat.add_sub_cancel' hi]

theorem overwrite_append :
    overwrite (overwrite l off data) (off + data.length) data' = overwrite l off (data ++ data') := by
  have hlen : (l.take off ++ data).length = off + data.length := by
    rw [length_append, length_take, Nat.min_eq_left h]
  rw [overwrite, overwrite, take_left' hlen, ← drop_drop, drop_left' hlen, drop_drop, overwrite,
    length_append, Nat.add_assoc, append_assoc (l.take off)]

theorem slice_of_disjoint {o : Nat} (hdis : o + n ≤ off ∨ off + data.length ≤ o) :
    slice (overwrite l off data) o n = slice l o n := by
  refine ext_getElem? fun i => ?_
  rw [slice, slice]
  by_cases hi : i < n
  · rw [List.getElem?_take_of_lt hi, List.getElem?_take_of_lt hi, List.getElem?_drop, List.getElem?_drop]
    rcases hdis with hdis | hdis
    · exact getElem?_of_lt h (by omega)
    · exact getElem?_of_ge h (by omega)
  · rw [List.getElem?_take_eq_none (by omega), List.getElem?_take_eq_none (by omega)]

theorem slice_of_mem {o : Nat} (hin : o + n ≤ data.length) :
    slice (overwrite l off data) (off + o) n = slice data o n := by
  refine ext_getElem? fun i => ?_
  rw [slice, slice]
  by_cases hi : i < n
  · rw [List.getElem?_take_of_lt hi, List.getElem?_take_of_lt hi, List.getElem?_drop, List.getElem?_drop, Nat.add_assoc]
    exact getElem?_of_mem h (by omega)
  · rw [List.getElem?_take_eq_none (by omega), List.getElem?_take_eq_none (by omega)]

end

theorem overwrite_left (h : off + data.length ≤ l.length) (l' : List α) :
    overwrite (l ++ l') off data = overwrite l off data ++ l' := by
  rw [overwrite, overwrite, take_append_of_le_length (by omega), drop_append_of_le_length h, append_assoc,
    append_assoc, append_assoc]

theorem overwrite_right (l l' : List α) (off : Nat) (data : List α) :
    overwrite (l ++ l') (l.length + off) data = l ++ overwrite l' off data := by
  rw [overwrite, overwrite, take_length_add_append, Nat.add_assoc, drop_length_add_append, append_assoc,
    append_assoc, append_assoc]

theorem overwrite_across (l' : List α) (h : off + data.length = l.length) :
    overwrite (l ++ l') off (data ++ data') = overwrite l off data ++ overwrite l' 0 data' := by
  rw [overwrite, overwrite, overwrite, take_append_of_le_length (by omega), length_append, ← Nat.add_assoc, h,
    drop_length_add_append, drop_length, Nat.zero_add, take_zero, nil_append, append_nil,
    append_assoc, append_assoc, append_assoc]

theorem flatten_modify {bs : List (List α)} {k o : Nat} {b : List α} (hb : bs[k]? = some b) (h : o + data.length ≤ b.length) :
    (bs.modify k fun b => overwrite b o data).flatten = overwrite bs.flatten (((bs.take k).map List.length).sum + o) data := by
  induction bs generalizing k with
  | nil => cases hb
  | cons d bs ih =>
    cases k with
    | zero =>
      obtain rfl : d = b := by simpa using hb
      rw [modify_zero_cons, flatten_cons, flatten_cons, take_zero, map_nil, sum_nil, Nat.zero_add,
        overwrite_left h]
    | succ k =>
      rw [modify_succ_cons, flatten_cons, flatten_cons, ih hb, take_succ_cons, map_cons, sum_cons,
        Nat.add_assoc, overwrite_right]

end Overwrite

structure Blocked {α : Type*} (size : Nat) (bs : List (List α)) : Prop where
  pos : 0 < size
  length_eq : ∀ b ∈ bs, b.length = size

namespace Blocked
variable {α : Type*} {size a n : Nat} {bs bs' : List (List α)} {data : List α}

variable (h : Blocked size bs)
include h

theorem map_length : bs.map List.length = List.replicate bs.length size :=
  eq_replicate_iff.mpr ⟨length_map _, fun n hn => by
    obtain ⟨b, hb, rfl⟩ := mem_map.mp hn
    exact h.length_eq b hb⟩

theorem length_flatten : bs.flatten.length = bs.length * size := by
  rw [List.length_flatten, h.map_length, sum_replicate_nat]

theorem congr (hlen : bs'.map List.length = bs.map List.length) : Blocked size bs' := by
  refine ⟨h.pos, fun b hb => ?_⟩
  have hmem := mem_map_of_mem (f := List.length) hb
  rw [hlen, h.map_length] at hmem
  exact eq_of_mem_replicate hmem

theorem exists_block (ha : a < bs.flatten.length) : ∃ b, bs[a / size]? = some b ∧ b.length = size := by
  rw [h.length_flatten] at ha
  have hk : a / size < bs.length := (Nat.div_lt_iff_lt_mul h.pos).mpr ha
  exact ⟨bs[a / size], List.getElem?_eq_getElem hk, h.length_eq _ (getElem_mem hk)⟩

private theorem start_eq (ha : a < bs.flatten.length) :
    ((bs.take (a / size)).map List.length).sum + a % size = a := by
  rw [h.length_flatten] at ha
  have hk : a / size < bs.length := (Nat.div_lt_iff_lt_mul h.pos).mpr ha
  rw [map_take, h.map_length, take_replicate, sum_replicate_nat, Nat.min_eq_left hk.le, Nat.div_add_mod']

theorem slice_block (ha : a < bs.flatten.length) {b : List α} (hb : bs[a / size]? = some b)
    (hn : a % size + n ≤ b.length) : slice b (a % size) n = slice bs.flatten a n := by
  rw [← Slice.slice_flatten hb hn, start_eq h ha]

theorem flatten_modify_block (ha : a < bs.flatten.length) {b : List α} (hb : bs[a / size]? = some b)
    (hn : a % size + data.length ≤ b.length) :
    (bs.modify (a / size) fun b => overwrite b (a % size) data).flatten = overwrite bs.flatten a data := by
  rw [Overwrite.flatten_modify hb hn, start_eq h ha]

end Blocked

theorem Overwrite.map_length_modify {α : Type*} {bs : List (List α)} {k o : Nat} {b data : List α} (hb : bs[k]? = some b)
    (hn : o + data.length ≤ b.length) :
    (bs.modify k fun b => overwrite b o data).map List.length = bs.map List.length := by
  refine ext_getElem? fun i => ?_
  rw [List.getElem?_map, List.getElem?_map, List.getElem?_modify]
  by_cases hi : k = i
  · subst hi
    simp [hb, length_overwrite hn]
  · simp [hi]

structure Put {α : Type*} (bufs : List (List α)) (off : Nat) (data : List α) (bufs' : List (List α)) : Prop where
  flat : bufs'.flatten = overwrite bufs.flatten off data
  lengths : bufs'.map List.length = bufs.map List.length

namespace Put
variable {α : Type*} {b data data' : List α} {bufs bufs' : List (List α)} {off : Nat}

theorem nil (bufs : List (List α)) (off : Nat) : Put bufs off [] bufs := ⟨(Overwrite.overwrite_nil _ _).symm, rfl⟩

theorem skip (b : List α) (h : Put bufs off data bufs') : Put (b :: bufs) (b.length + off) data (b :: bufs') := by
  refine ⟨?_, ?_⟩
  · rw [flatten_cons, flatten_cons, Overwrite.overwrite_right, h.flat]
  · rw [map_cons, map_cons, h.lengths]

theorem here (bufs : List (List α)) (h : off + data.length ≤ b.length) :
    Put (b :: bufs) off data (overwrite b off data :: bufs) := by
  refine ⟨?_, ?_⟩
  · rw [flatten_cons, flatten_cons, Overwrite.overwrite_left h]
  · rw [map_cons, map_cons, Overwrite.length_overwrite h]

theorem across (hb : off + data.length = b.length) (h : Put bufs 0 data' bufs') :
    Put (b :: bufs) off (data ++ data') (overwrite b off data :: bufs') := by
  refine ⟨?_, ?_⟩
  · rw [flatten_cons, flatten_cons, Overwrite.overwrite_across _ hb, h.flat]
  · rw [map_cons, map_cons, Overwrite.length_overwrite hb.le, h.lengths]

end Put
