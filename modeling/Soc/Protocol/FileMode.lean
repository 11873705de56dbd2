import Soc.Protocol.Delivery
import Soc.Protocol.Tables

/-!
The pictures on the command line of the slave.

The number of a picture is its position, so that every picture that can be opened gets an entry of
its own and a new block. What it gets there is the stream that a master saves after a transfer of
the same file. From the ninth position on there is no entry.
-/
namespace Soc
open Runs

/-- A picture that is read whole. -/
structure InputFile.Readable (f : InputFile) : Prop where
  lo : 1 ≤ f.content.length
  hi : f.content.length ≤ 65535 * frameDataLenMax
  block : ∃ block, f.block = some block ∧ block.length = countFrames f.content.length

section File
variable {o : Options} {s : Slave} {k : Nat} {f : InputFile} {malloc : Bool}

theorem Slave.fileUses_skipped (h : ¬ f.opens = true) :
    (s.fileUses o false k f malloc).result = .ok s := by
  have hget : f.getDataFrames false (UInt32.ofNat k) = .ok (1, UInt32.ofNat k, 0, []) := by
    rw [InputFile.getDataFrames, if_pos h]
  rw [fileUses, Noted.result_bind_ok (Noted.result_lift _ |>.trans hget)]
  rfl

/-- The frames of a picture carry its image. -/
theorem InputFile.Readable.frames (h : f.Readable) (hopens : f.opens = true) (nFile : UInt32) :
    ∃ ret nFrame frames, f.getDataFrames false nFile = .ok (ret, nFile, nFrame, frames) ∧
      ret ≠ 1 ∧ ret ≠ 3 ∧ Imaged nFrame (fileImage f.content) frames := by
  obtain ⟨block, hblock, hlength⟩ := h.block
  obtain ⟨frames, hget, himaged, -⟩ := getDataFrames_imaged h.lo h.hi hlength nFile
  refine ⟨if f.closes then 0 else 2, _, frames, ?_, ?_, ?_, himaged⟩
  · rw [getDataFrames, if_neg (not_not_intro hopens), if_neg Bool.false_ne_true, hblock, hget]
    rfl
  · split <;> decide
  · split <;> decide

theorem Slave.fileUses_readable (h : f.Readable) (hopens : f.opens = true) :
    (s.fileUses o false k f malloc).result =
      match fileIndex (UInt32.ofNat k) with
      | none => .error .outOfBounds
      | some j => o.store malloc (o.result f.content) (s.pictures j).bitStream >>= fun bitStream =>
          .ok { s with
            pictures := Function.update s.pictures j { s.pictures j with bitStream } } := by
  obtain ⟨ret, nFrame, frames, hget, hone, hthree, himaged⟩ := h.frames hopens (UInt32.ofNat k)
  rw [fileUses, Noted.result_bind_ok (Noted.result_lift _ |>.trans hget)]
  simp only [if_neg hone, if_neg hthree]
  cases hk : fileIndex (UInt32.ofNat k) with
  | none =>
      rw [Noted.result_bind, bitStreams, Noted.result_note, picture, hk]
      rfl
  | some j =>
      obtain ⟨payload, hpayload⟩ := dataFramesToData_ok frames
        (Nat.le_of_eq himaged.sendable.length.symm) himaged.dataLen
      have himage := dataFramesToData_carried frames _ hpayload
      rw [List.take_of_length_le (Nat.le_of_eq himaged.sendable.length), himaged.carried] at himage
      rw [Noted.result_bind_ok (bitStreams_result hk), Noted.result_bind, Noted.result_lift,
        processDataFrames, hpayload, ok_bind, himage]
      refine congrArg (o.store malloc (o.result f.content) (s.pictures j).bitStream >>= ·)
        (funext fun bitStream => ?_)
      rw [Noted.result_bind_ok (setBitStream_result hk bitStream),
        Noted.result_bind_ok (bitStreams_result hk)]
      rfl

end File

/-- The table when the files before position `n` are done. -/
structure Filled (o : Options) (files : List InputFile) (n : Nat) (s : Slave) : Prop where
  inTables : ∀ (k : Nat) f, files[k]? = some f → f.opens = true → k < n → k < picturesNumberMax
  encoded : ∀ (k : Fin picturesNumberMax) f, files[k.val]? = some f → f.opens = true → k.val < n →
    (s.pictures k).bitStream.bytes = o.result f.content
  untouched : ∀ k : Fin picturesNumberMax,
    (∀ f, files[k.val]? = some f → f.opens = true → n ≤ k.val) → (s.pictures k).bitStream = {}

section Filled
variable {o : Options} {files : List InputFile} {n : Nat} {s s' : Slave} {f : InputFile}
  {malloc : Bool}

theorem fileIndex_position {j : Fin picturesNumberMax} (hn : n < 2 ^ 32) :
    fileIndex (UInt32.ofNat n) = some j ↔ n = j.val := by
  rw [fileIndex_some, UInt32.toNat_ofNat', Nat.mod_eq_of_lt hn]

theorem Filled.init (o : Options) (files : List InputFile) : Filled o files 0 Slave.init := by
  refine ⟨fun k f _ _ hk => ?_, fun k f _ _ hk => ?_, fun _ _ => rfl⟩
  · exact absurd hk (Nat.not_lt_zero k)
  · exact absurd hk (Nat.not_lt_zero k.val)

theorem Filled.skip (h : Filled o files n s) (hfile : files[n]? = some f)
    (hopens : ¬ f.opens = true) : Filled o files (n + 1) s := by
  have hother {k : Nat} {g : InputFile} (hk : files[k]? = some g) (hg : g.opens = true) :
      k ≠ n := by
    rintro rfl
    exact hopens (Option.some.inj (hfile.symm.trans hk) ▸ hg)
  refine ⟨fun k g hk hg hlt => ?_, fun k g hk hg hlt => ?_, fun k hall => ?_⟩
  · exact h.inTables k g hk hg (Nat.lt_of_le_of_ne (Nat.le_of_lt_succ hlt) (hother hk hg))
  · exact h.encoded k g hk hg (Nat.lt_of_le_of_ne (Nat.le_of_lt_succ hlt) (hother hk hg))
  · exact h.untouched k fun g hk hg => Nat.le_of_succ_le (hall g hk hg)

theorem Filled.encode (h : Filled o files n s) {j : Fin picturesNumberMax} (hj : n = j.val)
    (hfile : files[n]? = some f) (hopens : f.opens = true) {bitStream : Data8}
    (hstore : o.store malloc (o.result f.content) (s.pictures j).bitStream = .ok bitStream) :
    Filled o files (n + 1) { s with
      pictures := Function.update s.pictures j { s.pictures j with bitStream } } := by
  subst hj
  refine ⟨fun k g hk hg hlt => ?_, fun k g hk hg hlt => ?_, fun k hall => ?_⟩
  · rcases Nat.lt_succ_iff_lt_or_eq.mp hlt with hlt | rfl
    · exact h.inTables k g hk hg hlt
    · exact j.isLt
  · by_cases hkj : k = j
    · subst hkj
      obtain rfl := Option.some.inj (hfile.symm.trans hk)
      simp only [Function.update_self]
      exact store_bytes hstore
    · simp only [Function.update_of_ne hkj]
      have hne : k.val ≠ j.val := fun heq => hkj (Fin.ext heq)
      exact h.encoded k g hk hg (Nat.lt_of_le_of_ne (Nat.le_of_lt_succ hlt) hne)
  · have hkj : k ≠ j := by
      rintro rfl
      exact absurd (hall f hfile hopens) (Nat.not_succ_le_self k.val)
    simp only [Function.update_of_ne hkj]
    exact h.untouched k fun g hk hg => Nat.le_of_succ_le (hall g hk hg)

/-- One file. -/
theorem Filled.file (h : Filled o files n s) (hn : n < 2 ^ 32) (hfile : files[n]? = some f)
    (hread : f.opens = true → f.Readable)
    (hrun : (s.fileUses o false n f malloc).result = .ok s') : Filled o files (n + 1) s' := by
  by_cases hopens : f.opens = true
  · rw [Slave.fileUses_readable (hread hopens) hopens] at hrun
    cases hk : fileIndex (UInt32.ofNat n) with
    | none =>
        rw [hk] at hrun
        contradiction
    | some j =>
        rw [hk] at hrun
        obtain ⟨bitStream, hstore, hrun⟩ := bind_ok hrun
        obtain rfl := Except.ok.inj hrun
        exact h.encode ((fileIndex_position hn).mp hk) hfile hopens hstore
  · rw [Slave.fileUses_skipped hopens] at hrun
    obtain rfl := Except.ok.inj hrun
    exact h.skip hfile hopens

/-- With an entry and memory, a file does not end the program. -/
theorem Filled.goes_on (h : Filled o files n s) (hn : n < 2 ^ 32)
    (hread : f.opens = true → f.Readable) (hentry : f.opens = true → n < picturesNumberMax) :
    ∃ s', (s.fileUses o false n f true).result = .ok s' := by
  by_cases hopens : f.opens = true
  · have hk : fileIndex (UInt32.ofNat n) = some ⟨n, hentry hopens⟩ :=
      (fileIndex_position hn).mpr rfl
    have hfresh := h.untouched ⟨n, hentry hopens⟩ fun _ _ _ => Nat.le_refl n
    have hstore := store_fresh o (o.result f.content) (congrArg Data8.addr hfresh)
    rw [Slave.fileUses_readable (hread hopens) hopens, hk]
    simp only [hstore, ok_bind, Except.ok.injEq, exists_eq']
  · exact ⟨s, Slave.fileUses_skipped hopens⟩

end Filled

/-- `main` is at position `n`, and the files before it are done. -/
def Session.At (o : Options) (files : List InputFile) (t : Session) : Prop :=
  match t.activity with
  | .files n left => left = files.drop n ∧ Filled o files n t.slave
  | .serial | .ended => True

section Files
variable {o : Options} {files : List InputFile}

theorem Session.at_init (o : Options) (files : List InputFile) : (init files).At o files := by
  rw [At, init]
  split
  case h_1 n left heq =>
      split at heq
      · contradiction
      · obtain ⟨rfl, rfl⟩ := Activity.files.inj heq
        exact ⟨rfl, Filled.init o _⟩
  all_goals trivial

variable (hcount : files.length < 2 ^ 31)
  (hread : ∀ f ∈ files, f.opens = true → f.Readable)
include hcount hread

theorem Session.step_at {t t' : Session} {act : Act} (h : t.At o files)
    (hstep : t.Step o false act t') : t'.At o files := by
  cases act with
  | file malloc =>
      rw [Step, next] at hstep
      split at hstep
      case h_1 n f left hactivity =>
          obtain rfl := Option.some.inj hstep
          rw [At, hactivity] at h
          obtain ⟨hleft, hfilled⟩ := h
          have hfile : files[n]? = some f := by
            rw [← List.head?_drop, ← hleft]
            rfl
          have hlt : n < files.length := (List.getElem?_eq_some_iff.mp hfile).1
          have hmem : f ∈ files := List.mem_of_getElem? hfile
          rw [after]
          cases hrun : (t.slave.fileUses o false n f malloc).result with
          | error fault => trivial
          | ok slave =>
              refine ⟨?_, hfilled.file (by omega) hfile (hread f hmem) hrun⟩
              rw [← List.drop_drop, ← hleft]
              rfl
      case h_2 => contradiction
  | event e =>
      rw [Step, next] at hstep
      split at hstep
      case h_1 hactivity =>
          obtain rfl := Option.some.inj hstep
          rw [after]
          split
          · trivial
          · trivial
      case h_2 => contradiction
  | free =>
      rw [Step, next] at hstep
      split at hstep
      case h_1 hactivity =>
          obtain rfl := Option.some.inj hstep
          rw [after]
          split
          · trivial
          · trivial
      case h_2 => contradiction

/-- With memory for every result, the files are done one after another. -/
theorem Session.reaches (hentry : ∀ (k : Nat) f, files[k]? = some f → f.opens = true →
    k < picturesNumberMax) (hne : files ≠ []) {n : Nat} (hn : n ≤ files.length) :
    ∃ t, Run (Session.Step o false) (.init files) (List.replicate n (.file true)) t ∧
      t.activity = .files n (files.drop n) ∧ Filled o files n t.slave := by
  induction n with
  | zero =>
      have hinit : (init files).activity = .files 0 (files.drop 0) := by
        rw [init]
        exact if_neg hne
      exact ⟨_, .nil _, hinit, .init o files⟩
  | succ n ih =>
      obtain ⟨t, hrun, hactivity, hfilled⟩ := ih (Nat.le_of_succ_le hn)
      have hfile : files[n]? = some files[n] := List.getElem?_eq_getElem hn
      have hleft : files.drop n = files[n] :: files.drop (n + 1) := List.drop_eq_getElem_cons hn
      have hmem : files[n] ∈ files := List.getElem_mem hn
      obtain ⟨slave, hresult⟩ := hfilled.goes_on (by omega) (hread _ hmem) (hentry n _ hfile)
      have hstep : t.Step o false (.file true)
          (t.after (t.slave.fileUses o false n files[n] true) id
            (.files (n + 1) (files.drop (n + 1)))) := by
        rw [Step, next, hactivity, hleft]
      rw [List.replicate_succ']
      refine ⟨_, hrun.snoc hstep, ?_⟩
      rw [after, hresult]
      exact ⟨rfl, hfilled.file (by omega) hfile (hread _ hmem) hresult⟩

/-- In every run over the files of the command line, the entry of each picture that could be opened
has the stream of its own image, and no other entry has any. All of them are encoded if and only if
none comes behind the eighth position. -/
theorem Session.encodes_files :
    (∀ acts t n left, Run (Session.Step o false) (.init files) acts t →
      t.activity = .files n left → Filled o files n t.slave) ∧
    (files ≠ [] → ((∃ t, Run (Session.Step o false) (.init files)
        (List.replicate files.length (.file true)) t ∧ t.activity = .files files.length []) ↔
      ∀ (k : Nat) f, files[k]? = some f → f.opens = true → k < picturesNumberMax)) := by
  have hfilled : ∀ acts t n left, Run (Session.Step o false) (.init files) acts t →
      t.activity = .files n left → Filled o files n t.slave := by
    intro acts t n left hrun hactivity
    have hat := hrun.invariant (P := Session.At o files)
      (fun _ _ _ h hstep => step_at hcount hread h hstep) (at_init o files)
    rw [At, hactivity] at hat
    exact hat.2
  refine ⟨hfilled, fun hne => ⟨fun ⟨t, hrun, hactivity⟩ k f hfile hopens => ?_, fun hentry => ?_⟩⟩
  · have hlt : k < files.length := (List.getElem?_eq_some_iff.mp hfile).1
    exact (hfilled _ t _ _ hrun hactivity).inTables k f hfile hopens hlt
  · obtain ⟨t, hrun, hactivity, -⟩ := reaches hcount hread hentry hne (Nat.le_refl _)
    rw [List.drop_length] at hactivity
    exact ⟨t, hrun, hactivity⟩

end Files

/-- A file that is missing, and one of one byte behind it. -/
theorem Session.encodes_files_two :
    ∃ t, Run (Session.Step dryRun false) (.init [{ opens := false }, oneByte])
        (List.replicate 2 (.file true)) t ∧
      Filled dryRun [{ opens := false }, oneByte] 2 t.slave := by
  have hread : ∀ f ∈ [{ opens := false }, oneByte], f.opens = true → f.Readable := by
    intro f hf hopens
    simp only [List.mem_cons, List.not_mem_nil, or_false] at hf
    rcases hf with rfl | rfl
    · contradiction
    · exact ⟨by decide, by decide, _, rfl, rfl⟩
  have hboth := Session.encodes_files (o := dryRun) (by decide) hread
  obtain ⟨t, hrun, hactivity⟩ := (hboth.2 (by simp)).mpr fun k f hfile _ => by
    have hlt := (List.getElem?_eq_some_iff.mp hfile).1
    exact Nat.lt_of_lt_of_le hlt (by decide)
  exact ⟨t, hrun, hboth.1 _ t _ _ hrun hactivity⟩

end Soc
