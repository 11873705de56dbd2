import Soc.Driver.Pictures
import Soc.Driver.Subbands

/-!
From the pictures to their streams and back.

A run with the device ends with a stream for every picture if and only if the network puts out
what the table of lengths asks for. Every stream is then decoded, to what the network makes of the
channels of its own picture with the weights of the file.
-/
namespace Soc

/-- What the coder gets for a picture. -/
def Network.channels (network : Network) (weights payload : List UInt8) :
    List (List Int16 × List Int16) :=
  (yuvChannels payload).map fun bytes =>
    (int16s (network.out weights bytes).1, int16s (network.out weights bytes).2)

section Pictures
variable {network : Network} {platform : Platform} {weights : List UInt8}
  {pictures : List PictureInput}

/-- Picture after picture is coded, and the first that is not ends the program. -/
theorem Network.encodeAll_spec {coded : PictureInput → Prop}
    {stream : PictureInput → CodingResult → Prop}
    (hcoded : ∀ p ∈ pictures, coded p → ∃ r, network.encode platform.charIsSigned platform.tables
      p.answers.heap weights p.payload = .ok r)
    (hstream : ∀ p ∈ pictures, ∀ r, network.encode platform.charIsSigned platform.tables
      p.answers.heap weights p.payload = .ok r → coded p ∧ stream p r) :
    ((∃ results, network.encodeAll platform weights pictures = .ok results) ↔
      ∀ p ∈ pictures, coded p) ∧
    ∀ results, network.encodeAll platform weights pictures = .ok results →
      List.Forall₂ stream pictures results := by
  induction pictures with
  | nil =>
      refine ⟨⟨fun _ => by simp, fun _ => ⟨[], rfl⟩⟩, fun results hrun => ?_⟩
      obtain rfl := Except.ok.inj hrun
      exact .nil
  | cons p rest ih =>
      obtain ⟨hiff, hall⟩ := ih (fun p hp => hcoded p (List.mem_cons_of_mem _ hp))
        fun p hp => hstream p (List.mem_cons_of_mem _ hp)
      refine ⟨⟨fun ⟨results, hrun⟩ => ?_, fun h => ?_⟩, fun results hrun => ?_⟩
      · obtain ⟨r, hencode, hrun⟩ := bind_ok hrun
        obtain ⟨results, hrest, -⟩ := bind_ok hrun
        exact List.forall_mem_cons.mpr
          ⟨(hstream p List.mem_cons_self r hencode).1, hiff.mp ⟨results, hrest⟩⟩
      · obtain ⟨hp, hrest⟩ := List.forall_mem_cons.mp h
        obtain ⟨r, hencode⟩ := hcoded p List.mem_cons_self hp
        obtain ⟨results, hresults⟩ := hiff.mpr hrest
        exact ⟨r :: results, by rw [encodeAll, hencode, ok_bind, hresults, ok_bind]⟩
      · obtain ⟨r, hencode, hrun⟩ := bind_ok hrun
        obtain ⟨results', hrest, hrun⟩ := bind_ok hrun
        obtain rfl := Except.ok.inj hrun
        exact .cons (hstream p List.mem_cons_self r hencode).2 (hall results' hrest)

end Pictures

/-- The program with the device, from the frames of the pictures to their streams: it ends if and
only if every picture fits the table, and then every stream is decoded. -/
theorem run_decodes {platform : Platform} {network : Network} (hdma : platform.dma.Copies)
    (hacc : platform.acc.Computes network) (usable : platform.tables.Usable) {b : Board}
    {reg : AccReg} {weight : FileAnswers} {weights : List UInt8}
    (hweight : weight.Delivers weights b.addrList) {pictures : List PictureInput}
    (hgranted : GrantedPictures network weights (reg.initialised weights.length) b.addrList
      pictures)
    (hpositive : ∀ p ∈ pictures,
      PositiveAll p.answers.heap (network.channels weights p.payload)) :
    ((∃ out, b.run platform reg weight pictures = .ok out) ↔
      ∀ p ∈ pictures, FitAll (network.channels weights p.payload)) ∧
    ∀ results b', b.run platform reg weight pictures = .ok (results, b') →
      List.Forall₂ (fun p r => Decodes platform.tables p.answers.heap
        (network.channels weights p.payload) r) pictures results := by
  obtain ⟨-, b₁, heq, -⟩ := Board.run_spec hdma hacc hweight hgranted
  have hcoded : ∀ p ∈ pictures, FitAll (network.channels weights p.payload) →
      ∃ r, network.encode platform.charIsSigned platform.tables p.answers.heap weights
        p.payload = .ok r := by
    intro p hp hfit
    obtain ⟨r, hrun, -⟩ := codeChannels_decodes platform.charIsSigned usable (hpositive p hp) hfit
    exact ⟨r, hrun⟩
  obtain ⟨hiff, hall⟩ := Network.encodeAll_spec hcoded fun p hp r hrun =>
    ⟨codeChannels_fits (hpositive p hp) hrun, coded_decodes usable (hpositive p hp) hrun⟩
  refine ⟨⟨fun ⟨out, hrun⟩ => ?_, fun h => ?_⟩, fun results b' hrun => ?_⟩
  · obtain ⟨results, hresults, -⟩ := bind_ok (heq.symm.trans hrun)
    exact hiff.mp ⟨results, hresults⟩
  · obtain ⟨results, hresults⟩ := hiff.mpr h
    exact ⟨(results, b₁), by rw [heq, hresults, ok_bind]⟩
  · obtain ⟨results', hresults, hsame⟩ := bind_ok (heq.symm.trans hrun)
    obtain ⟨rfl, -⟩ := Prod.mk.inj (Except.ok.inj hsame)
    exact hall results' hresults

theorem int16s_widened (bytes : List UInt8) :
    int16s (widened bytes) = bytes.map fun x => x.toUInt16.toInt16 := by
  induction bytes with
  | nil => rfl
  | cons x bytes ih =>
      have hload : loadInt16 [x, 0] = x.toUInt16.toInt16 := by
        rw [← storeInt16_byte, loadInt16_store]
      change loadInt16 [x, 0] :: int16s (widened bytes) = _
      rw [hload, ih, List.map_cons]

/-! A network with as many coefficients as the first channel has in the table. -/

section Zeros
variable {out : List UInt8 × List UInt8}
  (hout : out = (widened (List.replicate 8294400 0), widened (List.replicate 74649600 1)))
include hout

theorem zeros_max : (out.1 ≠ [] ∧ out.2 ≠ []) ∧ out.1.length ≤ 2 ^ 28 ∧ out.2.length ≤ 2 ^ 28 := by
  have hlength : out.1.length = 16588800 ∧ out.2.length = 149299200 := by
    simp only [hout, widened_length, List.length_replicate, Nat.reduceMul, and_self]
  refine ⟨⟨List.ne_nil_of_length_pos ?_, List.ne_nil_of_length_pos ?_⟩, ?_⟩
  all_goals omega

theorem zeros_channels (h : out.1 ≠ [] ∧ out.2 ≠ []) (weights payload : List UInt8) :
    (constantNetwork out h).channels weights payload =
      List.replicate 3 (List.replicate 8294400 0, List.replicate 74649600 1) := by
  obtain ⟨y, u, v, -, hyuv, -⟩ := yuvChannels_spec payload
  have hsame : (int16s out.1, int16s out.2) =
      (List.replicate 8294400 0, List.replicate 74649600 1) := by
    rw [hout, int16s_widened, int16s_widened, List.map_replicate, List.map_replicate]
    rfl
  rw [Network.channels, hyuv, ← hsame]
  rfl

theorem zeros_fits (h : out.1 ≠ [] ∧ out.2 ≠ []) {heap : Nat → Nat → Gmm}
    (hheap : ∀ k i, heap k i = ⟨1, 1, 1, 0, 0, 0, 1, 2, 3⟩) (weights payload : List UInt8) :
    FitAll ((constantNetwork out h).channels weights payload) ∧
      PositiveAll heap ((constantNetwork out h).channels weights payload) := by
  let channel := (List.replicate 8294400 (0 : Int16), List.replicate 74649600 (1 : Int16))
  have hpositive : ∀ k, Positive (heap k) channel.2 := by
    intro k
    refine positive_of (fun i => ?_) fun x hx => ?_
    · rw [hheap]
      decide
    · rw [List.eq_of_mem_replicate hx]
      decide
  rw [zeros_channels hout h]
  refine ⟨fitAll_iff.mpr ⟨⟨?_, ?_⟩, ⟨?_, ?_⟩, ⟨?_, ?_⟩⟩,
    .cons (hpositive 0) (.cons (hpositive 1) (.cons (hpositive 2) .nil))⟩
  all_goals simp only [List.length_replicate]
  all_goals decide

end Zeros

/-- The stream of a picture of six bytes. -/
theorem run_decodes_sixBytes :
    let out := (widened (List.replicate 8294400 0), widened (List.replicate 74649600 1))
    let picture := sixBytes (resultBlocks out) fun _ _ => ⟨1, 1, 1, 0, 0, 0, 1, 2, 3⟩
    let platform := constantPlatform out (rampTables 12001 100001)
    ∃ network results b', emptyBoard.run platform emptyBoard.engine (fourBytes (resultBlocks out))
        [picture] = .ok (results, b') ∧
      List.Forall₂ (fun p r => Decodes platform.tables p.answers.heap
        (Network.channels network [1, 2, 3, 4] p.payload) r) [picture] results := by
  intro out picture platform
  obtain ⟨hne, hmax⟩ := zeros_max (rfl : out = _)
  have hfits := zeros_fits rfl hne (fun _ _ => rfl) [1, 2, 3, 4] picture.payload
  have hacc : platform.acc.Computes (constantNetwork out hne) :=
    constantAccelerator_computes hne hmax
  have hgranted : GrantedPictures (constantNetwork out hne) [1, 2, 3, 4]
      (emptyBoard.engine.initialised 4) emptyBoard.addrList [picture] :=
    ⟨sixBytes_granted hne hmax, ⟨⟨rfl, rfl⟩, rfl, rfl⟩, trivial⟩
  have hpositive : ∀ p ∈ [picture], PositiveAll p.answers.heap
      ((constantNetwork out hne).channels [1, 2, 3, 4] p.payload) := by
    intro p hp
    rw [List.mem_singleton.mp hp]
    exact hfits.2
  have h := run_decodes (b := emptyBoard) (fun _ _ _ _ => rfl) hacc
    (rampTables_usable (Nat.le_refl _) (Nat.le_refl _) (Nat.le_refl _)) (fourBytes_delivers hmax)
    hgranted hpositive
  obtain ⟨⟨results, b'⟩, hrun⟩ := h.1.mpr fun p hp => by
    rw [List.mem_singleton.mp hp]
    exact hfits.1
  exact ⟨_, results, b', hrun, h.2 results b' hrun⟩

end Soc
