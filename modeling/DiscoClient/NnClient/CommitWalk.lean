import DiscoClient.NnClient.CommitPacket

namespace DiscoClient
open Wire Memory List

namespace PktBuf

@[simp] theorem put_nil (b : PktBuf) : b.put [] = b := by
  simp only [put, write_nil, length_nil, Nat.add_zero]

theorem put_put (b : PktBuf) (d d' : List (BitVec 8)) : (b.put d).put d' = b.put (d ++ d') := by
  simp only [put, write_append, length_append, Nat.add_assoc]

theorem putU64s_eq (b : PktBuf) (xs : List (BitVec 64)) : b.putU64s xs = b.put (xs.flatMap beU64) := by
  induction xs generalizing b with
  | nil => exact b.put_nil.symm
  | cons x xs ih => rw [putU64s, ih, put_put, flatMap_cons]

theorem putDnLoc_eq (b : PktBuf) (l : CiDnLoc) : b.putDnLoc l = b.put (l.shown dnIpaddrNameLen).bytes := by
  rw [putDnLoc, putU64s_eq, put_put, put_put, put_put, ShownDnLoc.bytes, CiDnLoc.shown]

end PktBuf

theorem loadCount_holds {m : Nat → BitVec 8} {off n : Nat} (h : n < 2 ^ 31)
    (hm : Holds m off (beU32 (BitVec.ofNat 32 n))) : loadCount m off = n := by
  have hval : (BitVec.ofNat 32 n).toNat = n := by rw [BitVec.toNat_ofNat, Nat.mod_eq_of_lt (by omega)]
  rw [loadCount, hm.loadU32, BitVec.toInt_eq_toNat_of_lt (by omega), Int.toNat_natCast, hval]

def ShownDnLoc.Ok (ipLen : Nat) (d : ShownDnLoc) : Prop := d.ipv4addr.length = ipLen ∧ d.triples.length < 2 ^ 31

def ShownLho.Ok (ipLen : Nat) (l : ShownLho) : Prop :=
  l.hbids.length < 2 ^ 31 ∧ l.dns.length < 2 ^ 31 ∧ ∀ d ∈ l.dns, d.Ok ipLen

variable {ipLen off : Nat} {m : Nat → BitVec 8}

theorem ShownDnLoc.length_bytes {d : ShownDnLoc} (h : d.Ok ipLen) :
    d.bytes.length = ipLen + 8 + 8 * d.triples.length := by
  simp only [bytes, length_append, length_u32, length_flatMap_u64, h.1]
  omega

theorem printCommitDNLocInPkt_holds {d : ShownDnLoc} (h : d.Ok ipLen) (hm : Holds m off d.bytes) :
    printCommitDNLocInPkt ipLen m off = (d, d.bytes.length) := by
  obtain ⟨hip, hlen⟩ := h
  rw [ShownDnLoc.length_bytes ⟨hip, hlen⟩]
  rw [ShownDnLoc.bytes, holds_append, holds_append, holds_append, hip, length_u32, length_u32] at hm
  obtain ⟨haddr, hport, hnum, htriples⟩ := hm
  rw [Holds, hip] at haddr
  simp only [printCommitDNLocInPkt, haddr, hport.loadU32, loadCount_holds hlen hnum]
  rw [Nat.add_assoc (off + ipLen)] at htriples
  rw [htriples.loadU64s]

theorem showDns_holds {ds : List ShownDnLoc} (h : ∀ d ∈ ds, d.Ok ipLen)
    (hm : Holds m off (ds.flatMap ShownDnLoc.bytes)) :
    showDns ipLen m ds.length off = (ds, off + (ds.flatMap ShownDnLoc.bytes).length) := by
  induction ds generalizing off with
  | nil => rfl
  | cons d ds ih =>
    obtain ⟨hd, hds⟩ := forall_mem_cons.mp h
    rw [flatMap_cons, holds_append] at hm
    rw [length_cons, showDns, printCommitDNLocInPkt_holds hd hm.1, ih hds hm.2, flatMap_cons,
      length_append, Nat.add_assoc]

theorem ShownLho.length_head (l : ShownLho) : l.head.length = 16 + 8 * l.hbids.length := by
  simp only [head, length_append, length_u32, length_u64, length_flatMap_u64]
  omega

theorem showLho_holds {l : ShownLho} (h : l.Ok ipLen) (hm : Holds m off l.bytes) :
    showLho ipLen m off = (l, off + l.bytes.length) := by
  obtain ⟨hhbids, hnum, hdns⟩ := h
  rw [ShownLho.bytes, holds_append, l.length_head] at hm
  obtain ⟨hhead, hmdns⟩ := hm
  rw [ShownLho.head, holds_append, holds_append, holds_append, length_u64, length_u32, length_flatMap_u64] at hhead
  obtain ⟨hlbid, hcnt, hmhbids, hmnum⟩ := hhead
  have hnumat : off + 12 + 8 * l.hbids.length = off + 8 + 4 + 8 * l.hbids.length := by omega
  have hdnsat : off + 16 + 8 * l.hbids.length = off + (16 + 8 * l.hbids.length) := by omega
  simp only [showLho, loadCount_holds hhbids hcnt, hnumat, loadCount_holds hnum hmnum, hdnsat, showDns_holds hdns hmdns,
    hlbid.loadU64]
  rw [show off + 12 = off + 8 + 4 from rfl, hmhbids.loadU64s, ShownLho.bytes, length_append, l.length_head,
    Nat.add_assoc]

theorem showLhos_holds {ls : List ShownLho} (h : ∀ l ∈ ls, l.Ok ipLen)
    (hm : Holds m off (ls.flatMap ShownLho.bytes)) :
    showLhos ipLen m ls.length off = (ls, off + (ls.flatMap ShownLho.bytes).length) := by
  induction ls generalizing off with
  | nil => rfl
  | cons l ls ih =>
    obtain ⟨hl, hls⟩ := forall_mem_cons.mp h
    rw [flatMap_cons, holds_append] at hm
    rw [length_cons, showLhos, showLho_holds hl hm.1, ih hls hm.2, flatMap_cons, length_append,
      Nat.add_assoc]

theorem ShownPkt.length_head (p : ShownPkt) : p.head.length = 30 := by
  simp only [head, length_append, length_u16, length_u32, length_u64]

theorem ShownPkt.length_bytes (p : ShownPkt) : p.bytes.length = 30 + (p.lhos.flatMap ShownLho.bytes).length + 8 := by
  rw [bytes, length_append, p.length_head, length_append, length_u64]
  omega

theorem walkCiPkt_holds {p : ShownPkt} (hnum : p.lhos.length < 2 ^ 31) (h : ∀ l ∈ p.lhos, l.Ok ipLen)
    (hm : Holds m 0 p.bytes) : walkCiPkt ipLen m = (p, p.bytes.length) := by
  rw [p.length_bytes]
  rw [ShownPkt.bytes, holds_append, holds_append, p.length_head] at hm
  obtain ⟨hhead, hlhos, htail⟩ := hm
  rw [ShownPkt.head, holds_append, holds_append, holds_append, holds_append] at hhead
  simp only [length_u64, length_u16] at hhead
  obtain ⟨hmagic, hrw, hvol, hreq, hcnt⟩ := hhead
  simp only [Nat.zero_add] at hmagic hrw hvol hreq hcnt hlhos htail
  simp only [walkCiPkt, loadCount_holds hnum hcnt, showLhos_holds h hlhos, hmagic.loadU64, hrw.loadU16,
    hvol.loadU64, hreq.loadU64, htail.loadU64]

/-- The items first, then the head in front of them, then the magic number behind them. -/
theorem ShownPkt.write_bytes (p : ShownPkt) (mem : Nat → BitVec 8) :
    write (write (write mem 30 (p.lhos.flatMap ShownLho.bytes)) 0 p.head) (30 + (p.lhos.flatMap ShownLho.bytes).length)
      (beU64 p.magicNum2) = write mem 0 p.bytes := by
  have hfront : write (write mem 30 (p.lhos.flatMap ShownLho.bytes)) 0 p.head =
      write mem 0 (p.head ++ p.lhos.flatMap ShownLho.bytes) := by
    rw [← write_before, p.length_head]
  have hend : 30 + (p.lhos.flatMap ShownLho.bytes).length = 0 + (p.head ++ p.lhos.flatMap ShownLho.bytes).length := by
    rw [length_append, p.length_head, Nat.zero_add]
  rw [hfront, hend, write_append, bytes, append_assoc]

theorem CiDnLoc.shown_ok (h : 15 ≤ ipLen) (l : CiDnLoc) : (l.shown ipLen).Ok ipLen := by
  have hphy : l.rbidLenOffset.length ≤ 33 := l.phyLocs_le
  exact ⟨length_ccmaInetAton l.ipaddr h, show l.rbidLenOffset.length < 2 ^ 31 by omega⟩

theorem CiMdItem.shown_ok (h : 15 ≤ ipLen) (reported : CiDnLoc → Bool) (it : CiMdItem) :
    (it.shown ipLen reported).Ok ipLen := by
  have hhbids : it.arrHBID.length ≤ 33 := it.hbids_le
  have hdns : it.udataDnLoc.length ≤ 3 := it.dnLoc_le
  have hfilter := length_filter_le reported it.udataDnLoc
  refine ⟨show it.arrHBID.length < 2 ^ 31 by omega, ?_, ?_⟩
  · rw [CiMdItem.shown, length_map]
    omega
  · exact forall_mem_map.mpr fun l _ => l.shown_ok h

end DiscoClient
