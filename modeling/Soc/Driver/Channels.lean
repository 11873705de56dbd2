import Soc.Driver.Live

/-!
The channels of a picture through the accelerator.

To the program the accelerator is a network: from the weights and a channel it computes
transform coefficients and entropy parameters. Mappings, bursts and registers do not show in
what the entropy coder is given, as long as the driver's stack gives back the registers of the
weights that a `NETWORK_ACC_GET` does not set.
-/
namespace Soc
open Loops Copies

/-- What the accelerator computes from the weights and a picture: the transform coefficients
and the entropy parameters. -/
structure Network where
  run : List UInt8 → List UInt8 → List UInt8 × List UInt8
  trans_ne : ∀ weights picture, (run weights picture).1 ≠ []
  entropy_ne : ∀ weights picture, (run weights picture).2 ≠ []

namespace AccReg

/-- The weights in the memory of the PL. -/
def weights (reg : AccReg) : Set Nat :=
  Set.Ico reg.weightAddr.toNat (reg.weightAddr.toNat + reg.weightSize.toNat)

def readWeights (reg : AccReg) (pl : Memory UInt8) : List UInt8 :=
  read pl reg.weightAddr.toNat reg.weightSize.toNat

/-- The weights lie below the pictures. -/
def Below (reg : AccReg) : Prop :=
  reg.weightAddr.toNat + reg.weightSize.toNat ≤ pictureBaseAddr.toNat

/-- The registers as the program leaves them at a START. No picture has more bytes than
65535 full frames. -/
structure Configured (engine : AccReg) : Prop where
  control : engine.control = 1
  weights : engine.Below
  pictureAddr : engine.pictureAddr = pictureBaseAddr
  pictureSize : engine.pictureSize.toNat ≤ 2 * (65535 * 512)

end AccReg

/-- A run of the accelerator: its results are in the memory of the PL, and the weights still
are. -/
structure Computed (network : Network) (engine : AccReg) (pl : Memory UInt8)
    (run : NetworkAccReg × Memory UInt8) : Prop where
  trans : read run.2 run.1.transAddr.toNat run.1.transSize.toNat =
    (network.run (engine.readWeights pl)
      (read pl engine.pictureAddr.toNat engine.pictureSize.toNat)).1
  entropy : read run.2 run.1.entropyAddr.toNat run.1.entropySize.toNat =
    (network.run (engine.readWeights pl)
      (read pl engine.pictureAddr.toNat engine.pictureSize.toNat)).2
  transInside : run.1.transAddr.toNat + align16 run.1.transSize.toNat ≤ 2 ^ 32
  entropyInside : run.1.entropyAddr.toNat + align16 run.1.entropySize.toNat ≤ 2 ^ 32
  weights : Set.EqOn run.2 pl engine.weights

def Accelerator.Computes (acc : Accelerator) (network : Network) : Prop :=
  ∀ engine pl, engine.Configured → Computed network engine pl (acc engine pl)

namespace ChannelAnswers

/-- The mappings after a channel. -/
def after (answers : ChannelAnswers) (addrList : List Allocation) : List Allocation :=
  answers.entropy.allocation :: answers.trans.allocation :: addrList.erase answers.yuv.allocation

/-- The calls of a channel succeed, and what they map is apart from what is mapped. -/
structure Granted (answers : ChannelAnswers) (addrList : List Allocation)
    (out : List UInt8 × List UInt8) : Prop where
  writeCopied : answers.writeCopied
  configCopied : answers.configCopied
  getCopied : answers.getCopied
  transCopied : answers.transCopied
  entropyCopied : answers.entropyCopied
  trans : answers.trans.Granted out.1.length
  entropy : answers.entropy.Granted out.2.length
  live : Live (answers.after addrList)

end ChannelAnswers

namespace Board

/-- What a channel leaves: its results are mapped, and the other mappings and the weights are
as they were. -/
structure Encoded (b b' : Board) (reg : AccReg) (answers : ChannelAnswers)
    (out : List UInt8 × List UInt8) : Prop where
  addrList : b'.addrList = answers.after b.addrList
  trans : read b'.ps answers.trans.allocation.dmaAddr.toNat out.1.length = out.1
  entropy : read b'.ps answers.entropy.allocation.dmaAddr.toNat out.2.length = out.2
  kept : ∀ alloc ∈ b.addrList.erase answers.yuv.allocation, Set.EqOn b'.ps b.ps alloc.bytes
  weights : Set.EqOn b'.pl b.pl reg.weights

end Board

/-- A transfer into a mapping does not reach the others. -/
theorem copy_apart {alloc other : Allocation} (h : other.Apart alloc) {size : Nat}
    (hsize : alloc.size.toNat = pageAlign size) (source target : Memory UInt8) (src : Nat) :
    Set.EqOn (copy source target src alloc.dmaAddr.toNat (align16 size)) target other.bytes := by
  have hle : align16 size ≤ alloc.size.toNat := hsize ▸ align16_le_pageAlign size
  refine (copy_outside source target src alloc.dmaAddr.toNat (align16 size)).mono ?_
  refine h.bytes.trans (Set.compl_subset_compl.mpr ?_)
  exact Set.Ico_subset_Ico_right (Nat.add_le_add_left hle _)

theorem le_align16 (n : Nat) : n ≤ align16 n := by
  rw [align16]
  omega

theorem length_of_read {m : Memory UInt8} {a n : Nat} {bytes : List UInt8}
    (h : read m a n = bytes) : n = bytes.length := by
  rw [← h, read_length]

/-- Part of a mapping. -/
theorem read_mapping {m m' : Memory UInt8} {alloc : Allocation} {n : Nat}
    (h : Set.EqOn m m' alloc.bytes) (hn : n ≤ alloc.size.toNat) :
    read m alloc.dmaAddr.toNat n = read m' alloc.dmaAddr.toNat n :=
  read_congr (h.mono (Set.Ico_subset_Ico_right (Nat.add_le_add_left hn _)))

namespace Board
variable {acc : Accelerator} {dma : Dma} {network : Network} {b : Board} {reg : AccReg}
  {answers : ChannelAnswers} {yuv : Allocation} {len : Nat}

/-- The results are read into two new mappings. -/
theorem plGet_eq (hdma : dma.Copies) {addrList : List Allocation}
    {out : List UInt8 × List UInt8} (hgranted : answers.Granted addrList out)
    (hlist : b.addrList = addrList.erase answers.yuv.allocation)
    (hnetwork : out.1 ≠ [] ∧ out.2 ≠ [])
    (htrans : b.engine.transSize.toNat = out.1.length)
    (hentropy : b.engine.entropySize.toNat = out.2.length)
    (htransInside : b.engine.transAddr.toNat + align16 b.engine.transSize.toNat ≤ 2 ^ 32)
    (hentropyInside : b.engine.entropyAddr.toNat + align16 b.engine.entropySize.toNat ≤ 2 ^ 32) :
    b.plGet dma 0 0 answers =
      .ok (({ answers.iargs with toNetworkAccReg := b.engine.toNetworkAccReg },
          answers.trans.allocation.userAddr, answers.entropy.allocation.userAddr),
        { b with
          addrList := answers.after addrList
          ps := copy b.pl
            (copy b.pl b.ps b.engine.transAddr.toNat answers.trans.allocation.dmaAddr.toNat
              (align16 out.1.length))
            b.engine.entropyAddr.toNat answers.entropy.allocation.dmaAddr.toNat
            (align16 out.2.length) }) := by
  have hlive := hgranted.live
  rw [ChannelAnswers.after, ← hlist] at hlive
  have hpos : ∀ {size : UInt32} {bytes : List UInt8}, size.toNat = bytes.length → bytes ≠ [] →
      1 ≤ size := by
    intro size bytes hsize hne
    rw [UInt32.le_iff_toNat_le, hsize]
    exact List.length_pos_iff.mpr hne
  have hread := plIo_read (b := b) hdma (hpos htrans hnetwork.1)
    (htrans ▸ hgranted.trans) (hlive.sublist (List.sublist_cons_self _ _)) htransInside
  let b' : Board :=
    { b with
      addrList := answers.trans.allocation :: b.addrList
      ps := copy b.pl b.ps b.engine.transAddr.toNat answers.trans.allocation.dmaAddr.toNat
        (align16 b.engine.transSize.toNat) }
  have hread' := plIo_read (b := b') hdma (hpos hentropy hnetwork.2)
    (hentropy ▸ hgranted.entropy) hlive hentropyInside
  have hno : ∀ size : UInt32, ¬ (size.toNat : Int) = -1 := by omega
  rw [plGet, networkAccGet, hgranted.getCopied, hgranted.transCopied, hgranted.entropyCopied]
  simp only [if_true, hread, if_neg (hno _), hread', b']
  rw [ChannelAnswers.after, ← hlist, htrans, hentropy]

/-- The results of a run are in the memory of the PL, and the weights still are. -/
structure Results (b' b : Board) (reg : AccReg) (out : List UInt8 × List UInt8) : Prop where
  trans : read b'.pl b'.engine.transAddr.toNat b'.engine.transSize.toNat = out.1
  entropy : read b'.pl b'.engine.entropyAddr.toNat b'.engine.entropySize.toNat = out.2
  transInside : b'.engine.transAddr.toNat + align16 b'.engine.transSize.toNat ≤ 2 ^ 32
  entropyInside : b'.engine.entropyAddr.toNat + align16 b'.engine.entropySize.toNat ≤ 2 ^ 32
  weights : Set.EqOn b'.pl b.pl reg.weights

/-- The board at a START: the picture of the channel is in the memory of the PL. -/
def started (b : Board) (reg : AccReg) (yuv : Allocation) (len : Nat) : Board :=
  { addrList := b.addrList.erase yuv
    engine := { b.engine with
      control := 1
      weightAddr := reg.weightAddr
      weightSize := reg.weightSize
      quantifyAddr := reg.quantifyAddr
      quantifySize := reg.quantifySize
      pictureAddr := pictureBaseAddr
      pictureSize := UInt32.ofNat (2 * len) }
    ps := b.ps
    pl := copy b.ps b.pl yuv.dmaAddr.toNat pictureBaseAddr.toNat (align16 (2 * len)) }

/-- The board when the accelerator is done. -/
def ran (b : Board) (acc : Accelerator) : Board :=
  let (results, pl) := acc b.engine b.pl
  { b with engine := { b.engine with toNetworkAccReg := results }, pl }

/-- A channel is written to the PL and its mapping is taken back; then the accelerator runs. -/
theorem encodeChannel_eq (acc : Accelerator) (reg : AccReg) (hdma : dma.Copies)
    (hlive : Live b.addrList)
    (hmem : answers.yuv.allocation ∈ b.addrList) (hlen : 1 ≤ len) (hmax : len ≤ 65535 * 512)
    (hsize : answers.yuv.allocation.size.toNat = pageAlign (2 * len))
    (hwrite : answers.writeCopied) (hconfig : answers.configCopied) :
    b.encodeChannel acc dma reg ⟨answers.yuv.allocation.userAddr, len⟩ answers =
      (((b.started reg answers.yuv.allocation len).ran acc).plGet dma 0 0 answers >>=
        fun ((reg, transAddr, entropyAddr), b) =>
          .ok ((⟨transAddr, (reg.transSize / 2).toNat⟩, ⟨entropyAddr, (reg.entropySize / 2).toNat⟩),
            reg, b)) := by
  have hword : (UInt32.ofNat (2 * len)).toNat = 2 * len := by
    rw [UInt32.toNat_ofNat']
    omega
  have hone : 1 ≤ UInt32.ofNat (2 * len) := by
    rw [UInt32.le_iff_toNat_le, hword]
    exact (by omega : 1 ≤ 2 * len)
  have hbase : pictureBaseAddr.toNat = 536870912 := rfl
  have hpl : pictureBaseAddr.toNat + align16 (UInt32.ofNat (2 * len)).toNat ≤ 2 ^ 32 := by
    rw [hword, hbase, align16]
    omega
  have hio := plIo_write hdma hlive hmem hone (hword.symm ▸ hsize) hpl answers.yuv
  rw [hword] at hio
  let b' : Board :=
    { b with
      pl := copy b.ps b.pl answers.yuv.allocation.dmaAddr.toNat pictureBaseAddr.toNat
        (align16 (2 * len)) }
  have hunmap := munmap_eq (b := b') hlive hmem (show 2 * len ≠ 0 by omega)
  have hno : ¬ ((2 * len : Nat) : Int) = -1 := by omega
  have hno' : ¬ (0 : Int) = -1 := by decide
  rw [encodeChannel, hwrite]
  simp only [hio, if_neg hno, hunmap, if_neg hno', b']
  rw [plRun, if_pos hconfig]
  rfl

/-- What the accelerator is started with, and what it reads there. -/
theorem started_configured (hmax : len ≤ 65535 * 512) (hbelow : reg.Below) :
    (b.started reg yuv len).engine.Configured := by
  refine ⟨rfl, hbelow, rfl, ?_⟩
  change (UInt32.ofNat (2 * len)).toNat ≤ _
  rw [UInt32.toNat_ofNat']
  exact (Nat.mod_le _ _).trans (Nat.mul_le_mul_left 2 hmax)

theorem started_weights (hbelow : reg.Below) :
    Set.EqOn (b.started reg yuv len).pl b.pl reg.weights := by
  refine (copy_outside _ _ _ _ _).mono ?_
  intro a ha ha'
  have hlt := ha.2
  have hle := ha'.1
  have hbelow' : reg.weightAddr.toNat + reg.weightSize.toNat ≤ pictureBaseAddr.toNat := hbelow
  omega

theorem started_picture (hmax : len ≤ 65535 * 512) :
    read (b.started reg yuv len).pl (b.started reg yuv len).engine.pictureAddr.toNat
        (b.started reg yuv len).engine.pictureSize.toNat =
      read b.ps yuv.dmaAddr.toNat (2 * len) := by
  have hword : (b.started reg yuv len).engine.pictureSize.toNat = 2 * len := by
    change (UInt32.ofNat (2 * len)).toNat = _
    rw [UInt32.toNat_ofNat']
    omega
  rw [hword]
  exact read_copy _ _ (le_align16 _)

/-- What is in the memory of the PL when the accelerator is done. -/
theorem ran_computed (hacc : acc.Computes network) {picture : List UInt8}
    (hmax : len ≤ 65535 * 512) (hpicture : read b.ps yuv.dmaAddr.toNat (2 * len) = picture)
    (hbelow : reg.Below) :
    ((b.started reg yuv len).ran acc).Results b reg
      (network.run (reg.readWeights b.pl) picture) := by
  have hconfigured : (b.started reg yuv len).engine.Configured := started_configured hmax hbelow
  obtain ⟨htrans, hentropy, htransInside, hentropyInside, hkept⟩ :=
    hacc _ (b.started reg yuv len).pl hconfigured
  have hweights : (b.started reg yuv len).engine.readWeights (b.started reg yuv len).pl =
      reg.readWeights b.pl := read_congr (started_weights hbelow)
  rw [hweights, started_picture hmax, hpicture] at htrans hentropy
  exact ⟨htrans, hentropy, htransInside, hentropyInside, hkept.trans (started_weights hbelow)⟩

/-- The results are read where they are mapped, and nothing else is written. -/
theorem Results.encoded {b' : Board} {out : List UInt8 × List UInt8} (h : b'.Results b reg out)
    (hps : b'.ps = b.ps) (hgranted : answers.Granted b.addrList out) :
    b.Encoded
      { b' with
        addrList := answers.after b.addrList
        ps := copy b'.pl
          (copy b'.pl b'.ps b'.engine.transAddr.toNat answers.trans.allocation.dmaAddr.toNat
            (align16 out.1.length))
          b'.engine.entropyAddr.toNat answers.entropy.allocation.dmaAddr.toNat
          (align16 out.2.length) } reg answers out := by
  obtain ⟨hentropyApart, hrest⟩ := List.pairwise_cons.mp hgranted.live.apart
  have htransApart := (List.pairwise_cons.mp hrest).1
  have htransSize := hgranted.trans.size_eq
  have hentropySize := hgranted.entropy.size_eq
  have hfits : out.1.length ≤ answers.trans.allocation.size.toNat :=
    htransSize ▸ (le_align16 _).trans (align16_le_pageAlign _)
  -- the entropy parameters are read last, and not over the coefficients
  have hbehind : ∀ (m : Memory UInt8) (alloc : Allocation),
      alloc ∈ answers.trans.allocation :: b.addrList.erase answers.yuv.allocation →
      Set.EqOn (copy b'.pl m b'.engine.entropyAddr.toNat
        answers.entropy.allocation.dmaAddr.toNat (align16 out.2.length)) m alloc.bytes := by
    intro m alloc halloc
    exact copy_apart (Std.Symm.symm _ _ (hentropyApart alloc halloc)) hentropySize _ _ _
  refine ⟨rfl, ?_, ?_, ?_, h.weights⟩
  · rw [read_mapping (hbehind _ _ List.mem_cons_self) hfits, read_copy _ _ (le_align16 _),
      ← length_of_read h.trans, h.trans]
  · rw [read_copy _ _ (le_align16 _), ← length_of_read h.entropy, h.entropy]
  · intro alloc halloc
    refine (hbehind _ _ (List.mem_cons_of_mem _ halloc)).trans ?_
    rw [← hps]
    exact copy_apart (Std.Symm.symm _ _ (htransApart alloc halloc)) htransSize _ _ _

/-- A channel through the accelerator, seen from the program. -/
theorem encodeChannel_spec (hdma : dma.Copies) (hacc : acc.Computes network)
    (hlive : Live b.addrList) {picture : List UInt8} (hmem : answers.yuv.allocation ∈ b.addrList)
    (hlen : 1 ≤ len) (hmax : len ≤ 65535 * 512)
    (hsize : answers.yuv.allocation.size.toNat = pageAlign (2 * len))
    (hpicture : read b.ps answers.yuv.allocation.dmaAddr.toNat (2 * len) = picture)
    (hbelow : reg.Below) {out : List UInt8 × List UInt8}
    (hout : network.run (reg.readWeights b.pl) picture = out)
    (hgranted : answers.Granted b.addrList out) :
    ∃ reg' b', b.encodeChannel acc dma reg ⟨answers.yuv.allocation.userAddr, len⟩ answers =
        .ok ((⟨answers.trans.allocation.userAddr, out.1.length / 2⟩,
          ⟨answers.entropy.allocation.userAddr, out.2.length / 2⟩), reg', b') ∧
      reg'.weightAddr = answers.iargs.weightAddr ∧ reg'.weightSize = answers.iargs.weightSize ∧
      b.Encoded b' reg answers out := by
  have hran := hout ▸ ran_computed hacc hmax hpicture hbelow
  have hne : out.1 ≠ [] ∧ out.2 ≠ [] := hout ▸ ⟨network.trans_ne _ _, network.entropy_ne _ _⟩
  have htrans := length_of_read hran.trans
  have hentropy := length_of_read hran.entropy
  have hget := plGet_eq hdma hgranted rfl hne htrans hentropy hran.transInside hran.entropyInside
  have heq := encodeChannel_eq acc reg hdma hlive hmem hlen hmax hsize hgranted.writeCopied
    hgranted.configCopied
  have hhalf : ∀ size : UInt32, (size / 2).toNat = size.toNat / 2 := fun size =>
    UInt32.toNat_div size 2
  rw [hget, ok_bind] at heq
  simp only [hhalf, htrans, hentropy] at heq
  exact ⟨_, _, heq, rfl, rfl, hran.encoded rfl hgranted⟩

/-- A mapping and what it starts with. -/
structure Holds (b : Board) (alloc : Allocation) (bytes : List UInt8) : Prop where
  mem : alloc ∈ b.addrList
  fits : bytes.length ≤ alloc.size.toNat
  contents : read b.ps alloc.dmaAddr.toNat bytes.length = bytes

/-- A channel in its mapping, not longer than a picture. -/
structure Mapped (b : Board) (bytes : List UInt8) (map : MapAnswer) : Prop where
  pos : 1 ≤ bytes.length
  max : bytes.length ≤ 65535 * 512
  size_eq : map.allocation.size.toNat = pageAlign (2 * bytes.length)
  holds : b.Holds map.allocation (widened bytes)

namespace Encoded
variable {b' : Board} {out : List UInt8 × List UInt8}

theorem holds (h : b.Encoded b' reg answers out) {alloc : Allocation} {bytes : List UInt8}
    (hholds : b.Holds alloc bytes) (hne : alloc ≠ answers.yuv.allocation) :
    b'.Holds alloc bytes := by
  have hmem : alloc ∈ b.addrList.erase answers.yuv.allocation :=
    (List.mem_erase_of_ne hne).mpr hholds.mem
  refine ⟨?_, hholds.fits, ?_⟩
  · rw [h.addrList]
    exact List.mem_cons_of_mem _ (List.mem_cons_of_mem _ hmem)
  · rw [read_mapping (h.kept alloc hmem) hholds.fits, hholds.contents]

theorem holds_trans (h : b.Encoded b' reg answers out)
    (hgranted : answers.Granted b.addrList out) : b'.Holds answers.trans.allocation out.1 := by
  refine ⟨?_, ?_, h.trans⟩
  · rw [h.addrList]
    exact List.mem_cons_of_mem _ List.mem_cons_self
  · rw [hgranted.trans.size_eq]
    exact (le_align16 _).trans (align16_le_pageAlign _)

theorem holds_entropy (h : b.Encoded b' reg answers out)
    (hgranted : answers.Granted b.addrList out) : b'.Holds answers.entropy.allocation out.2 := by
  refine ⟨?_, ?_, h.entropy⟩
  · rw [h.addrList]
    exact List.mem_cons_self
  · rw [hgranted.entropy.size_eq]
    exact (le_align16 _).trans (align16_le_pageAlign _)

end Encoded

end Board

/-- The mapping of a later channel is none of the new ones. -/
theorem ChannelAnswers.Granted.apart {addrList : List Allocation}
    {answers : ChannelAnswers} {out : List UInt8 × List UInt8} {alloc : Allocation}
    (hgranted : answers.Granted addrList out) (hmem : alloc ∈ addrList)
    (hne : alloc ≠ answers.yuv.allocation) :
    answers.trans.allocation ≠ alloc ∧ answers.entropy.allocation ≠ alloc := by
  have hleft : alloc ∈ addrList.erase answers.yuv.allocation :=
    (List.mem_erase_of_ne hne).mpr hmem
  obtain ⟨hentropy, hnodup⟩ := List.nodup_cons.mp hgranted.live.nodup
  have htrans := (List.nodup_cons.mp hnodup).1
  constructor
  · rintro rfl
    exact htrans hleft
  · rintro rfl
    exact hentropy (List.mem_cons_of_mem _ hleft)

/-- The results of the channels, where the accelerator has the same weights for all of them. -/
def Network.out (network : Network) (weights : List UInt8) (bytes : List UInt8) :
    List UInt8 × List UInt8 := network.run weights (widened bytes)

/-- What is granted to channel after channel. -/
def GrantedAll (network : Network) (weights : List UInt8) :
    List Allocation → List (List UInt8 × ChannelAnswers) → Prop
  | _, [] => True
  | addrList, (bytes, answers) :: rest =>
    answers.Granted addrList (network.out weights bytes) ∧
      GrantedAll network weights (answers.after addrList) rest

/-- The stack gives back the registers of the weights. -/
def ChannelAnswers.Keeps (answers : ChannelAnswers) (reg : AccReg) : Prop :=
  answers.iargs.weightAddr = reg.weightAddr ∧ answers.iargs.weightSize = reg.weightSize

/-- The mappings of the results of a channel. -/
def resultData (network : Network) (weights : List UInt8)
    (channel : List UInt8 × ChannelAnswers) : Data × Data :=
  (⟨channel.2.trans.allocation.userAddr, (network.out weights channel.1).1.length / 2⟩,
    ⟨channel.2.entropy.allocation.userAddr, (network.out weights channel.1).2.length / 2⟩)

/-- The mappings after some channels. -/
def mappingsAfter (addrList : List Allocation) (channels : List (List UInt8 × ChannelAnswers)) :
    List Allocation := channels.foldl (fun addrList channel => channel.2.after addrList) addrList

namespace Board
variable {acc : Accelerator} {dma : Dma} {network : Network} {weights : List UInt8}

/-- What the channels leave. -/
structure EncodedAll (b b' : Board) (network : Network) (weights : List UInt8) (reg : AccReg)
    (channels : List (List UInt8 × ChannelAnswers)) : Prop where
  live : Live b'.addrList
  addrList : b'.addrList = mappingsAfter b.addrList channels
  results : ∀ channel ∈ channels,
    b'.Holds channel.2.trans.allocation (network.out weights channel.1).1 ∧
      b'.Holds channel.2.entropy.allocation (network.out weights channel.1).2
  kept : ∀ alloc bytes, b.Holds alloc bytes →
    (∀ channel ∈ channels, alloc ≠ channel.2.yuv.allocation) → b'.Holds alloc bytes
  weights : Set.EqOn b'.pl b.pl reg.weights

theorem EncodedAll.nil {b : Board} (hlive : Live b.addrList) (reg : AccReg) :
    b.EncodedAll b network weights reg [] :=
  ⟨hlive, rfl, by simp, fun _ _ hholds _ => hholds, fun _ _ => rfl⟩

/-- A channel, and then the others. -/
theorem Encoded.cons {b b₁ b' : Board} {reg : AccReg} {bytes : List UInt8}
    {answers : ChannelAnswers} {rest : List (List UInt8 × ChannelAnswers)}
    (h : b.Encoded b₁ reg answers (network.out weights bytes))
    (hgranted : answers.Granted b.addrList (network.out weights bytes))
    (hrest : b₁.EncodedAll b' network weights reg rest)
    (hapart : ∀ channel ∈ rest, answers.trans.allocation ≠ channel.2.yuv.allocation ∧
      answers.entropy.allocation ≠ channel.2.yuv.allocation) :
    b.EncodedAll b' network weights reg ((bytes, answers) :: rest) := by
  refine ⟨hrest.live, ?_, ?_, ?_, hrest.weights.trans h.weights⟩
  · rw [hrest.addrList, h.addrList]
    rfl
  · intro channel hchannel
    cases hchannel with
    | head =>
        have htrans := h.holds_trans hgranted
        have hentropy := h.holds_entropy hgranted
        exact ⟨hrest.kept _ _ htrans fun channel hchannel => (hapart channel hchannel).1,
          hrest.kept _ _ hentropy fun channel hchannel => (hapart channel hchannel).2⟩
    | tail _ hchannel => exact hrest.results channel hchannel
  · intro alloc bytes' hholds hne
    have hnext := h.holds hholds (hne _ List.mem_cons_self)
    exact hrest.kept _ _ hnext fun channel hchannel => hne channel (List.mem_cons_of_mem _ hchannel)

/-- The channels one after the other, each with the mappings the ones before have left. -/
theorem encodeChannels_spec (hdma : dma.Copies) (hacc : acc.Computes network)
    {channels : List (List UInt8 × ChannelAnswers)} {b : Board} {reg : AccReg}
    (hlive : Live b.addrList) (hmapped : ∀ channel ∈ channels, b.Mapped channel.1 channel.2.yuv)
    (hnodup : (channels.map fun channel => channel.2.yuv.allocation).Nodup) (hbelow : reg.Below)
    (hweights : reg.readWeights b.pl = weights)
    (hgranted : GrantedAll network weights b.addrList channels)
    (hkeeps : ∀ channel ∈ channels.dropLast, channel.2.Keeps reg) :
    ∃ b', b.encodeChannels acc dma reg (channels.map fun channel =>
        (⟨channel.2.yuv.allocation.userAddr, channel.1.length⟩, channel.2)) =
          .ok (channels.map (resultData network weights), b') ∧
      b.EncodedAll b' network weights reg channels := by
  induction channels generalizing b reg with
  | nil =>
      exact ⟨b, rfl, hlive, rfl, by simp, fun _ _ hholds _ => hholds, fun _ _ => rfl⟩
  | cons channel rest ih =>
      obtain ⟨bytes, answers⟩ := channel
      obtain ⟨hfirst, hrest⟩ := hgranted
      obtain ⟨hnotin, hnodup⟩ := List.nodup_cons.mp hnodup
      obtain ⟨hpos, hmax, hsize, hholds⟩ := hmapped _ List.mem_cons_self
      have hcontents := hholds.contents
      rw [widened_length] at hcontents
      have hout : network.run (reg.readWeights b.pl) (widened bytes) =
          network.out weights bytes := by
        rw [hweights]
        rfl
      obtain ⟨reg', b₁, hchannel, haddr, hsize', hencoded⟩ :=
        encodeChannel_spec hdma hacc hlive hholds.mem hpos hmax hsize hcontents hbelow hout hfirst
      have hother : ∀ channel ∈ rest, channel.2.yuv.allocation ≠ answers.yuv.allocation := by
        intro channel hchannel heq
        exact hnotin (List.mem_map.mpr ⟨channel, hchannel, heq⟩)
      have hapart : ∀ channel ∈ rest, answers.trans.allocation ≠ channel.2.yuv.allocation ∧
          answers.entropy.allocation ≠ channel.2.yuv.allocation := by
        intro channel hchannel
        have hmem := (hmapped channel (List.mem_cons_of_mem _ hchannel)).holds.mem
        exact hfirst.apart hmem (hother channel hchannel)
      have hlive₁ : Live b₁.addrList := hencoded.addrList ▸ hfirst.live
      have hnext : ∃ b', b₁.encodeChannels acc dma reg' (rest.map fun channel =>
          (⟨channel.2.yuv.allocation.userAddr, channel.1.length⟩, channel.2)) =
            .ok (rest.map (resultData network weights), b') ∧
          b₁.EncodedAll b' network weights reg rest := by
        cases rest with
        | nil => exact ⟨b₁, rfl, .nil hlive₁ reg⟩
        | cons next rest =>
            obtain ⟨hkeepAddr, hkeepSize⟩ := hkeeps (bytes, answers) List.mem_cons_self
            have haddr := haddr.trans hkeepAddr
            have hsize := hsize'.trans hkeepSize
            have hbelow' : reg'.Below := by rwa [AccReg.Below, haddr, hsize]
            have hregion : reg'.weights = reg.weights := by
              rw [AccReg.weights, AccReg.weights, haddr, hsize]
            have hweights' : reg'.readWeights b₁.pl = weights := by
              rw [← hweights, AccReg.readWeights, AccReg.readWeights, haddr, hsize]
              exact read_congr hencoded.weights
            have hmapped' : ∀ channel ∈ next :: rest, b₁.Mapped channel.1 channel.2.yuv := by
              intro channel hchannel
              have hbefore := hmapped channel (List.mem_cons_of_mem _ hchannel)
              exact ⟨hbefore.pos, hbefore.max, hbefore.size_eq,
                hencoded.holds hbefore.holds (hother channel hchannel)⟩
            have hkeeps' : ∀ channel ∈ (next :: rest).dropLast, channel.2.Keeps reg' := by
              intro channel hchannel
              have hkeep := hkeeps channel (List.mem_cons_of_mem _ hchannel)
              exact ⟨hkeep.1.trans haddr.symm, hkeep.2.trans hsize.symm⟩
            obtain ⟨b', heq, hall⟩ :=
              ih hlive₁ hmapped' hnodup hbelow' hweights' (hencoded.addrList ▸ hrest) hkeeps'
            exact ⟨b', heq, ⟨hall.live, hall.addrList, hall.results, hall.kept,
              hregion ▸ hall.weights⟩⟩
      obtain ⟨b', heq, hall⟩ := hnext
      refine ⟨b', ?_, hencoded.cons hfirst hall hapart⟩
      rw [List.map_cons, encodeChannels, hchannel, ok_bind]
      simp only [heq, ok_bind]
      rfl

end Board

/-! The coder's side. -/

/-- The bytes of the three channels. -/
def yuvChannels (payload : List UInt8) : List (List UInt8) :=
  let uLen := payload.length / 6
  [payload.take (uLen * 4), (payload.drop (uLen * 4)).take uLen,
    ((payload.drop (uLen * 4)).drop uLen).take uLen]

/-- What the coder makes of the results of a network. -/
def Network.encode (network : Network) (charIsSigned : Bool) (T : Tables)
    (heap : Nat → Nat → Gmm) (weights payload : List UInt8) : Except Fault CodingResult :=
  codeChannels charIsSigned T heap <| (yuvChannels payload).map fun bytes =>
    (int16s (network.out weights bytes).1, int16s (network.out weights bytes).2)

namespace PictureAnswers
variable (answers : PictureAnswers)

def channels (payload : List UInt8) : List (List UInt8 × ChannelAnswers) :=
  (yuvChannels payload).zip [answers.y, answers.u, answers.v]

/-- The mappings of the channels. -/
def yuvMappings : List Allocation :=
  [answers.v.yuv.allocation, answers.u.yuv.allocation, answers.y.yuv.allocation]

/-- All that is asked of the kernel for a picture. -/
structure Granted (network : Network) (weights payload : List UInt8)
    (addrList : List Allocation) : Prop where
  yuv : ∀ channel ∈ answers.channels payload, channel.2.yuv.Granted (2 * channel.1.length)
  live : Live (answers.yuvMappings ++ addrList)
  channels : GrantedAll network weights (answers.yuvMappings ++ addrList)
    (answers.channels payload)

end PictureAnswers

/-- An odd byte at the end is no value. -/
theorem int16s_take (bytes : List UInt8) :
    int16s (bytes.take (2 * (bytes.length / 2))) = int16s bytes := by
  induction bytes using int16s.induct with
  | case1 low high bytes ih =>
      have hlength : 2 * ((low :: high :: bytes).length / 2) = 2 * (bytes.length / 2) + 1 + 1 := by
        rw [List.length_cons, List.length_cons]
        omega
      rw [hlength, List.take_succ_cons, List.take_succ_cons, int16s, int16s, ih]
  | case2 bytes hshort =>
      cases bytes with
      | nil => rfl
      | cons low bytes =>
          cases bytes with
          | nil => simp [int16s]
          | cons high bytes => exact absurd rfl (hshort low high bytes)

namespace Board
variable {b : Board} {network : Network} {weights : List UInt8}

theorem array_eq (h : Live b.addrList) {alloc : Allocation} {bytes : List UInt8}
    (hholds : b.Holds alloc bytes) :
    b.array ⟨alloc.userAddr, bytes.length / 2⟩ = .ok (int16s bytes) := by
  have hle : 2 * (bytes.length / 2) ≤ bytes.length := by omega
  rw [array, peek_eq h hholds.mem (hle.trans hholds.fits), ok_bind, ← read_take _ _ hle,
    hholds.contents, int16s_take]

theorem arrays_eq (h : Live b.addrList) {channels : List (List UInt8 × ChannelAnswers)}
    (hresults : ∀ channel ∈ channels,
      b.Holds channel.2.trans.allocation (network.out weights channel.1).1 ∧
        b.Holds channel.2.entropy.allocation (network.out weights channel.1).2) :
    b.arrays (channels.map (resultData network weights)) =
      .ok (channels.map fun channel =>
        (int16s (network.out weights channel.1).1, int16s (network.out weights channel.1).2)) := by
  induction channels with
  | nil => rfl
  | cons channel rest ih =>
      obtain ⟨htrans, hentropy⟩ := hresults _ List.mem_cons_self
      have hrest := ih fun channel hchannel => hresults channel (List.mem_cons_of_mem _ hchannel)
      rw [List.map_cons, arrays, resultData, array_eq h htrans, ok_bind, array_eq h hentropy,
        ok_bind, hrest]
      rfl

end Board

theorem erase_middle {α : Type} [DecidableEq α] (before : List α) {behind : List α} {x : α}
    (h : (before ++ x :: behind).Nodup) :
    (before ++ x :: behind).erase x = before ++ behind := by
  have hnot : x ∉ before := fun hmem =>
    (List.nodup_append.mp h).2.2 x hmem x List.mem_cons_self rfl
  rw [List.erase_append_right _ hnot, List.erase_cons_head]

namespace PictureAnswers
variable {answers : PictureAnswers} {network : Network} {weights payload : List UInt8}
  {addrList : List Allocation}

/-- The mappings of the results. -/
def resultMappings (answers : PictureAnswers) : List Allocation :=
  [answers.v.entropy.allocation, answers.v.trans.allocation,
    answers.u.entropy.allocation, answers.u.trans.allocation,
    answers.y.entropy.allocation, answers.y.trans.allocation]

/-- After a picture its channels are no longer mapped, and its results still are. -/
theorem Granted.mappingsAfter (h : answers.Granted network weights payload addrList) :
    mappingsAfter (answers.yuvMappings ++ addrList) (answers.channels payload) =
      answers.resultMappings ++ addrList := by
  obtain ⟨hy, hu, -⟩ := h.channels
  have hfirst : answers.y.after (answers.yuvMappings ++ addrList) =
      [answers.y.entropy.allocation, answers.y.trans.allocation, answers.v.yuv.allocation,
        answers.u.yuv.allocation] ++ addrList := by
    rw [ChannelAnswers.after]
    exact congrArg _ (congrArg _ (erase_middle
      [answers.v.yuv.allocation, answers.u.yuv.allocation] h.live.nodup))
  rw [hfirst] at hu
  have hylive := hy.live.nodup
  rw [hfirst] at hylive
  have hsecond : answers.u.after ([answers.y.entropy.allocation, answers.y.trans.allocation,
      answers.v.yuv.allocation, answers.u.yuv.allocation] ++ addrList) =
      [answers.u.entropy.allocation, answers.u.trans.allocation, answers.y.entropy.allocation,
        answers.y.trans.allocation, answers.v.yuv.allocation] ++ addrList := by
    rw [ChannelAnswers.after]
    exact congrArg _ (congrArg _ (erase_middle [answers.y.entropy.allocation,
      answers.y.trans.allocation, answers.v.yuv.allocation] hylive))
  have hulive := hu.live.nodup
  rw [hsecond] at hulive
  have hthird : answers.v.after ([answers.u.entropy.allocation, answers.u.trans.allocation,
      answers.y.entropy.allocation, answers.y.trans.allocation, answers.v.yuv.allocation] ++
      addrList) = answers.resultMappings ++ addrList := by
    rw [ChannelAnswers.after]
    exact congrArg _ (congrArg _ (erase_middle [answers.u.entropy.allocation,
      answers.u.trans.allocation, answers.y.entropy.allocation, answers.y.trans.allocation]
      hulive))
  rw [← hthird, ← hsecond, ← hfirst]
  rfl

end PictureAnswers

namespace Board

/-- What a picture leaves behind: the mappings of its results, and the weights. -/
structure Left (b b' : Board) (reg : AccReg) (answers : PictureAnswers) : Prop where
  live : Live b'.addrList
  addrList : b'.addrList = answers.resultMappings ++ b.addrList
  weights : Set.EqOn b'.pl b.pl reg.weights

end Board

/-- The channels have four, one and one sixths of the bytes, and up to five are left. -/
theorem yuvChannels_spec (payload : List UInt8) :
    ∃ y u v behind, yuvChannels payload = [y, u, v] ∧ payload = [y, u, v].flatten ++ behind ∧
      y.length = payload.length / 6 * 4 ∧ u.length = payload.length / 6 ∧
      v.length = payload.length / 6 := by
  let uLen := payload.length / 6
  refine ⟨_, _, _, ((payload.drop (uLen * 4)).drop uLen).drop uLen, rfl, ?_, ?_, ?_, ?_⟩
  · simp only [List.flatten_cons, List.flatten_nil, List.append_nil, List.append_assoc,
      List.take_append_drop, uLen]
  · rw [List.length_take]
    omega
  · rw [List.length_take, List.length_drop]
    omega
  · rw [List.length_take, List.length_drop, List.length_drop]
    omega

namespace Board
variable {b : Board}

/-- The channels of a picture, in their mappings. -/
theorem mapYuv_fillYuv {channels : List (List UInt8 × ChannelAnswers)} {p behind : List UInt8}
    (hlen : ∀ channel ∈ channels, 1 ≤ channel.1.length ∧ channel.1.length ≤ 65535 * 512)
    (hgranted : ∀ channel ∈ channels, channel.2.yuv.Granted (2 * channel.1.length))
    (hlive : Live ((channels.map fun channel => channel.2.yuv.allocation).reverse ++ b.addrList))
    (hp : p = (channels.map Prod.fst).flatten ++ behind) :
    ∃ yuv mapped b', b.mapYuv (channels.map fun channel => (channel.1.length, channel.2.yuv)) =
        (yuv, mapped) ∧ mapped.fillYuv yuv p = .ok b' ∧
      yuv = (channels.map fun channel =>
        ⟨channel.2.yuv.allocation.userAddr, channel.1.length⟩) ∧
      b'.addrList =
        (channels.map fun channel => channel.2.yuv.allocation).reverse ++ b.addrList ∧
      b'.pl = b.pl ∧ ∀ channel ∈ channels, b'.Mapped channel.1 channel.2.yuv := by
  have hsizes : ∀ m ∈ channels.map fun channel => (channel.1.length, channel.2.yuv),
      m.1 ≠ 0 ∧ m.2.Granted (2 * m.1) := by
    intro m hm
    obtain ⟨channel, hchannel, rfl⟩ := List.mem_map.mp hm
    exact ⟨Nat.ne_of_gt (hlen channel hchannel).1, hgranted channel hchannel⟩
  have hmaps := mapYuv_eq (b := b) hsizes
  simp only [List.map_map, Function.comp_def] at hmaps
  let mapped : Board :=
    { b with
      addrList := (channels.map fun channel => channel.2.yuv.allocation).reverse ++ b.addrList }
  have hmem : ∀ channel ∈ channels, channel.2.yuv.allocation ∈ mapped.addrList := by
    intro channel hchannel
    exact List.mem_append_left _ (List.mem_reverse.mpr (List.mem_map_of_mem hchannel))
  have hfits : ∀ channel ∈ channels,
      2 * channel.1.length ≤ channel.2.yuv.allocation.size.toNat := by
    intro channel hchannel
    rw [(hgranted channel hchannel).size_eq]
    exact (le_align16 _).trans (align16_le_pageAlign _)
  have hnodup : (channels.map fun channel => channel.2.yuv.allocation).Nodup :=
    List.nodup_reverse.mp (List.nodup_append.mp hlive.nodup).1
  let placed := channels.map fun channel => (channel.1, channel.2.yuv.allocation)
  have hplaced : ∀ c ∈ placed, c.2 ∈ mapped.addrList ∧ 2 * c.1.length ≤ c.2.size.toNat := by
    intro c hc
    obtain ⟨channel, hchannel, rfl⟩ := List.mem_map.mp hc
    exact ⟨hmem channel hchannel, hfits channel hchannel⟩
  have hdistinct : (placed.map Prod.snd).Nodup := by rwa [List.map_map]
  have hpieces : p = (placed.map Prod.fst).flatten ++ behind := by rwa [List.map_map]
  obtain ⟨ps, hfill, hcontents, -⟩ := fillYuv_spec (b := mapped) hlive hplaced hdistinct hpieces
  rw [List.map_map] at hfill
  refine ⟨_, mapped, { mapped with ps }, hmaps, hfill, rfl, rfl, rfl, ?_⟩
  intro channel hchannel
  obtain ⟨hpos, hmax⟩ := hlen channel hchannel
  refine ⟨hpos, hmax, (hgranted channel hchannel).size_eq, hmem channel hchannel, ?_, ?_⟩
  · rw [widened_length]
    exact hfits channel hchannel
  · rw [widened_length]
    exact hcontents _ (List.mem_map_of_mem hchannel)

variable {platform : Platform} {network : Network} {reg : AccReg} {answers : PictureAnswers}

/-- A picture is coded as the network sees it, and its mappings are all that is left. -/
theorem processDataFrames_spec (hdma : platform.dma.Copies)
    (hacc : platform.acc.Computes network) {frames : List DataFrame} {nFrame : Nat}
    {payload : List UInt8} (hpayload : dataFramesToData frames nFrame = .ok payload)
    (hframes : nFrame ≤ 65535) (hlen : 6 ≤ payload.length) (hbelow : reg.Below)
    (hgranted : answers.Granted network (reg.readWeights b.pl) payload b.addrList)
    (hkeeps : answers.y.Keeps reg ∧ answers.u.Keeps reg) :
    ∃ b', b.processDataFrames platform frames nFrame reg answers =
        (network.encode platform.charIsSigned platform.tables answers.heap
          (reg.readWeights b.pl) payload >>= fun encRes => .ok (encRes, b')) ∧
      b.Left b' reg answers := by
  obtain ⟨y, u, v, behind, hchannels, hp, hy, hu, hv⟩ := yuvChannels_spec payload
  have hmax := dataFramesToData_le frames nFrame hpayload
  have hyuvLen := dataFramesToData_length frames nFrame hpayload
  have hlist : answers.channels payload = [(y, answers.y), (u, answers.u), (v, answers.v)] := by
    rw [PictureAnswers.channels, hchannels]
    rfl
  obtain ⟨hyuv, hlive, hall⟩ := hgranted
  have hafter := PictureAnswers.Granted.mappingsAfter ⟨hyuv, hlive, hall⟩
  rw [hlist] at hyuv hall hafter
  have hlens : ∀ channel ∈ [(y, answers.y), (u, answers.u), (v, answers.v)],
      1 ≤ channel.1.length ∧ channel.1.length ≤ 65535 * 512 := by
    simp only [List.forall_mem_cons, List.not_mem_nil, false_imp_iff, implies_true, and_true]
    omega
  obtain ⟨yuv, mapped, b₁, hmap, hfill, hdata, hmappings, hpl, hmapped⟩ :=
    mapYuv_fillYuv (b := b) hlens hyuv hlive hp
  have hlive₁ : Live b₁.addrList := hmappings ▸ hlive
  have hnodup : ([(y, answers.y), (u, answers.u), (v, answers.v)].map fun channel =>
      channel.2.yuv.allocation).Nodup :=
    List.nodup_reverse.mp (List.nodup_append.mp hlive.nodup).1
  have hsame : ∀ channel ∈ [(y, answers.y), (u, answers.u), (v, answers.v)].dropLast,
      channel.2.Keeps reg := by
    simpa [ChannelAnswers.Keeps] using hkeeps
  obtain ⟨b', hencode, hdone⟩ := encodeChannels_spec hdma hacc hlive₁ hmapped hnodup hbelow
    (congrArg reg.readWeights hpl) (hmappings ▸ hall) hsame
  have harrays := arrays_eq hdone.live hdone.results
  have hmap : b.mapYuv [(y.length, answers.y.yuv), (u.length, answers.u.yuv),
      (v.length, answers.v.yuv)] = (yuv, mapped) := hmap
  have hzip : yuv.zip [answers.y, answers.u, answers.v] =
      [(y, answers.y), (u, answers.u), (v, answers.v)].map fun channel =>
        (⟨channel.2.yuv.allocation.userAddr, channel.1.length⟩, channel.2) := by
    rw [hdata]
    rfl
  have hsix : 4 + 1 + 1 = 6 := rfl
  rw [hy, hu, hv] at hmap
  refine ⟨b', ?_, ⟨hdone.live, ?_, hpl ▸ hdone.weights⟩⟩
  · rw [processDataFrames, hpayload, ok_bind, hyuvLen, hsix]
    simp only [hmap, hfill, ok_bind, hzip, hencode, harrays]
    rw [Network.encode, hchannels]
    rfl
  · rw [hdone.addrList, hmappings]
    exact hafter

end Board

end Soc
