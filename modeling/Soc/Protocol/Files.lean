import Mathlib.Data.List.Forall2
import Mathlib.Data.List.ReduceOption
import Soc.Foundation.Runs
import Soc.Protocol.Dump

/-!
The two loops of the master over the files of its command line.

The first loop sends the files and notes the number of each in `n_files`; a file that cannot be
opened is skipped, and its entry stays as `malloc` left it. The second loop collects the encoded
pictures: it goes through the whole of `n_files`.
-/
namespace Soc
open Runs

/-- A file of the command line, what `malloc` gives for its frames, or for the bytes of a dump, and
whether the calls on it succeed: `open` and `fstat`, `close`, and those of `--dump`. -/
structure InputFile where
  opens : Bool
  content : List UInt8 := []
  block : Option (List DataFrame) := none
  heap : Option (Nat → UInt8) := none
  closes : Bool := true
  dumps : Bool := true

/-- `get_data_frames`: its result, `n_file`, `n_frame` and the frames. The last two stay unset
unless the file is read. -/
def InputFile.getDataFrames (f : InputFile) (binary : Bool) (nFile : UInt32) :
    Except Fault (Nat × UInt32 × UInt16 × List DataFrame) :=
  if ¬ f.opens then .ok (1, nFile, 0, [])
  else if binary then do
    let (nFile, nFrame, dataFrames) ← getDataFramesBinary f.heap f.content
    .ok (if f.closes then 0 else 2, nFile, nFrame, dataFrames)
  else do
    let (nFrame, dataFrames) ← Soc.getDataFrames f.block f.content nFile
    match dataFrames with
    | none => .ok (3, nFile, nFrame, [])
    | some dataFrames => .ok (if f.closes then 0 else 2, nFile, nFrame, dataFrames)

/-- The first loop on file `k` up to its first request. A file that is skipped has no number. The
name of a dump is left out; `sprintf` writes one byte more than its block has. -/
def InputFile.prepare (f : InputFile) (binary : Bool) (k : Nat) :
    Except Fault (Option UInt32) := do
  let (ret, nFile, _) ← f.getDataFrames binary (UInt32.ofNat k)
  if ret = 1 then .ok none
  else if ret = 3 then .error .exited
  else if ¬ f.dumps then .error .exited
  else .ok (some nFile)

/-- The requests of the two loops. -/
inductive Wait where
  | query
  | send
  | poll
  | recv

def Wait.frameType : Wait → UInt8
  | .query | .poll => frameTypeQuery
  | .send => frameTypeSend
  | .recv => frameTypeRecv

/-- Where the master is: waiting for the reply to a request, at its end, at an entry of `n_files`
that was not assigned, or ended by an error. -/
inductive Place where
  | waiting (w : Wait)
  | done
  | unassigned
  | exited

/-- What a request says. -/
structure Requested where
  frameType : UInt8
  nFile : UInt32

/-- `main` at file `k`, with the files after it. The requests of each loop are kept file by file,
the latest first. -/
structure Walk where
  place : Place
  k : Nat := 0
  files : List InputFile
  /-- `output_frame.n_file` -/
  nFile : UInt32 := 0
  nFiles : List (Option UInt32)
  sent : List (List Requested) := []
  received : List (List Requested) := []

/-- A request goes out. -/
def Walk.ask (c : Walk) (w : Wait) : Walk :=
  let r : Requested := ⟨w.frameType, c.nFile⟩
  match w with
  | .query | .send => { c with place := .waiting w, sent := c.sent.modifyHead (r :: ·) }
  | .poll | .recv => { c with place := .waiting w, received := c.received.modifyHead (r :: ·) }

/-- The second loop at entry `k`. -/
def Walk.receiveNext (c : Walk) : Walk :=
  match c.nFiles[c.k]? with
  | none => { c with place := .done }
  | some none => { c with place := .unassigned }
  | some (some nFile) => { c with nFile, received := [] :: c.received }.ask .poll

/-- The first loop at file `k`, the first of some files. -/
def Walk.sendNext (binary : Bool) : List InputFile → Walk → Walk
  | [], c => { c with k := 0, files := [] }.receiveNext
  | f :: files, c =>
    match f.prepare binary c.k with
    | .error _ => { c with place := .exited }
    | .ok none => sendNext binary files { c with k := c.k + 1 }
    | .ok (some nFile) =>
      { c with
        files
        nFile
        nFiles := c.nFiles.set c.k (some nFile)
        sent := [] :: c.sent }.ask .query

/-- What the master gets for a request: no reply in time, the status of a reply and whether
`calloc` succeeds behind it, or a reply with data frames, of which some stay missing. -/
inductive Got where
  | timeout
  | reply (status : UInt16) (calloc : Bool)
  | data (sum : UInt16)

def Walk.next (binary : Bool) (c : Walk) (got : Got) : Option Walk :=
  match c.place, got with
  | .waiting w, .timeout => some (c.ask w)
  | .waiting .query, .reply status _ =>
    if status = statusUnreceived then some (c.ask .send)
    else some (sendNext binary c.files { c with k := c.k + 1 })
  | .waiting .send, .reply _ _ => some (c.ask .query)
  | .waiting .poll, .reply status calloc =>
    if status ≠ statusProcessed then some (c.ask .poll)
    else if calloc then some (c.ask .recv)
    else some { c with place := .exited }
  | .waiting .recv, .data sum =>
    if 0 < sum then some (c.ask .recv) else some { c with k := c.k + 1 }.receiveNext
  | _, _ => none

def Walk.Step (binary : Bool) (c : Walk) (got : Got) (c' : Walk) : Prop :=
  c.next binary got = some c'

/-- Before the first loop. -/
def Walk.start (files : List InputFile) : Walk :=
  { place := .exited, files, nFiles := List.replicate files.length none }

def Walk.init (binary : Bool) (files : List InputFile) : Walk :=
  sendNext binary files (start files)

/-- All requests for a file say its number. -/
def Bears (rs : List Requested) (nFile : UInt32) : Prop := rs ≠ [] ∧ ∀ r ∈ rs, r.nFile = nFile

/-- A picture was queried and requested. -/
def Fetched (rs : List Requested) : Prop :=
  (∃ r ∈ rs, r.frameType = frameTypeQuery) ∧ ∃ r ∈ rs, r.frameType = frameTypeRecv

/-- The numbers announced by the first loop for the files it sent, in order, are the numbers the
second loop asks for: a part from the first on, and all of them in the end. -/
def Walk.Orderly (c : Walk) : Prop :=
  c.place ≠ .unassigned ∧ ∃ asked later : List UInt32,
    List.Forall₂ Bears c.sent (asked ++ later).reverse ∧
    List.Forall₂ Bears c.received asked.reverse ∧
    (c.place = .done → later = [] ∧ ∀ rs ∈ c.received, Fetched rs)

/-- The process ends at one of some files, the first of which is file `k`. -/
def EndsAt (binary : Bool) (k : Nat) (files : List InputFile) : Prop :=
  ∃ (i : Nat) (f : InputFile) (e : Fault), files[i]? = some f ∧ f.prepare binary (k + i) = .error e

theorem endsAt_cons {binary : Bool} {k : Nat} {f : InputFile} {files : List InputFile} :
    EndsAt binary k (f :: files) ↔
      (∃ e, f.prepare binary k = .error e) ∨ EndsAt binary (k + 1) files := by
  constructor
  · rintro ⟨i, g, e, hg, he⟩
    cases i with
    | zero =>
        obtain rfl := Option.some.inj hg
        exact .inl ⟨e, he⟩
    | succ i =>
        rw [Nat.add_comm i, ← Nat.add_assoc] at he
        exact .inr ⟨i, g, e, hg, he⟩
  · rintro (⟨e, he⟩ | ⟨i, g, e, hg, he⟩)
    · exact ⟨0, f, e, rfl, he⟩
    · rw [Nat.add_assoc, Nat.add_comm 1] at he
      exact ⟨i + 1, g, e, hg, he⟩

/-! What holds in every run, whichever files are skipped. -/

/-- A picture that was collected. -/
def Taken (rs : List Requested) (nFile : UInt32) : Prop := Fetched rs ∧ Bears rs nFile

/-- The first loop behind the files with the entries `assigned`, before some files. -/
structure Walk.Announcing (opened : List Bool) (assigned : List (Option UInt32))
    (files : List InputFile) (c : Walk) : Prop where
  table : c.nFiles = assigned ++ List.replicate files.length none
  marks : assigned.map Option.isSome ++ files.map InputFile.opens = opened
  sent : List.Forall₂ Bears c.sent assigned.reduceOption.reverse
  received : c.received = []

/-- The second loop behind the files with the numbers `ns`, before the entries `rest`. -/
structure Walk.Collecting (opened : List Bool) (ns : List UInt32) (rest : List (Option UInt32))
    (gs : List (List Requested)) (c : Walk) : Prop where
  table : c.nFiles = ns.map some ++ rest
  marks : c.nFiles.map Option.isSome = opened
  sent : List.Forall₂ Bears c.sent c.nFiles.reduceOption.reverse
  received : List.Forall₂ Taken gs ns.reverse

/-- The second loop at a file for which it has made requests. -/
def Walk.Asking (opened : List Bool) (recv : Prop) (c : Walk) : Prop :=
  ∃ ns rest g gs, c.Collecting opened ns (some c.nFile :: rest) gs ∧ ns.length = c.k ∧
    c.received = g :: gs ∧ Bears g c.nFile ∧ (∃ r ∈ g, r.frameType = frameTypeQuery) ∧
    (recv → ∃ r ∈ g, r.frameType = frameTypeRecv)

def Walk.Ordered (c : Walk) : Prop :=
  ∃ asked later : List UInt32, List.Forall₂ Bears c.sent (asked ++ later).reverse ∧
    List.Forall₂ Bears c.received asked.reverse

def Walk.Kept (opened : List Bool) (c : Walk) : Prop :=
  match c.place with
  | .waiting .query | .waiting .send => ∃ assigned, assigned.length = c.k ∧
    c.Announcing opened (assigned ++ [some c.nFile]) c.files
  | .waiting .poll => c.Asking opened False
  | .waiting .recv => c.Asking opened True
  | .done => ∃ ns, c.Collecting opened ns [] c.received
  | .unassigned => false ∈ opened
  | .exited => c.Ordered

theorem InputFile.prepare_isSome {f : InputFile} {binary : Bool} {k : Nat} {r : Option UInt32}
    (h : f.prepare binary k = .ok r) : r.isSome = f.opens := by
  obtain ⟨⟨ret, nFile⟩, hget, h⟩ := bind_ok h
  rw [getDataFrames] at hget
  by_cases hopens : f.opens
  · have hret : ret ≠ 1 := by
      rw [if_neg (not_not_intro hopens)] at hget
      split at hget
      · obtain ⟨p, -, hget⟩ := bind_ok hget
        cases hget
        split <;> decide
      · obtain ⟨p, -, hget⟩ := bind_ok hget
        dsimp only at hget
        split at hget
        · cases hget
          decide
        · cases hget
          split <;> decide
    dsimp only at h
    rw [if_neg hret] at h
    split at h
    · contradiction
    · split at h
      · contradiction
      · cases h
        exact hopens.symm
  · rw [if_pos hopens] at hget
    cases hget
    cases h
    exact (Bool.eq_false_iff.mpr hopens).symm

theorem reduceOption_somes {α : Type} (as : List α) : (as.map some).reduceOption = as := by
  rw [List.reduceOption, List.filterMap_map]
  exact List.filterMap_some

theorem table_set {nFiles assigned : List (Option UInt32)} {k m : Nat}
    (h : nFiles = assigned ++ List.replicate (m + 1) none) (hk : assigned.length = k)
    (n : UInt32) : nFiles.set k (some n) = assigned ++ [some n] ++ List.replicate m none := by
  rw [h, List.set_append_right _ _ (Nat.le_of_eq hk), hk, Nat.sub_self, List.replicate_succ,
    List.set_cons_zero, List.append_assoc]
  rfl

theorem bears_first (frameType : UInt8) (n : UInt32) : Bears [⟨frameType, n⟩] n :=
  ⟨List.cons_ne_nil _ _, List.forall_mem_singleton.mpr rfl⟩

theorem Bears.ask {rs : List Requested} {n : UInt32} (h : Bears rs n) (frameType : UInt8) :
    Bears (⟨frameType, n⟩ :: rs) n := ⟨List.cons_ne_nil _ _, List.forall_mem_cons.mpr ⟨rfl, h.2⟩⟩

theorem forall_bears {gs : List (List Requested)} {ns : List UInt32}
    (h : List.Forall₂ Taken gs ns) : List.Forall₂ Bears gs ns := h.imp fun _ _ h => h.2

section Kept
variable {opened : List Bool} {c : Walk}

theorem Walk.Announcing.ordered {assigned : List (Option UInt32)} {files : List InputFile}
    (h : c.Announcing opened assigned files) : c.Ordered := by
  refine ⟨[], assigned.reduceOption, h.sent, ?_⟩
  rw [h.received]
  exact .nil

theorem Walk.Collecting.numbers {ns : List UInt32} {rest : List (Option UInt32)}
    {gs : List (List Requested)} (h : c.Collecting opened ns rest gs) :
    c.nFiles.reduceOption = ns ++ rest.reduceOption := by
  rw [h.table, List.reduceOption_append, reduceOption_somes]

theorem Walk.Asking.ordered {recv : Prop} (h : c.Asking opened recv) : c.Ordered := by
  obtain ⟨ns, rest, g, gs, hcollecting, -, hreceived, hbears, -⟩ := h
  refine ⟨ns ++ [c.nFile], rest.reduceOption, ?_, ?_⟩
  · have hsent := hcollecting.sent
    rw [hcollecting.numbers, List.reduceOption_cons_of_some] at hsent
    rw [List.append_assoc]
    exact hsent
  · rw [hreceived, List.reverse_append]
    exact .cons hbears (forall_bears hcollecting.received)

/-- A run is in order unless it is at an entry that was not assigned. -/
theorem Walk.Kept.orderly (h : c.Kept opened) (hplace : c.place ≠ .unassigned) : c.Orderly := by
  have ordered (h : c.Ordered) (hdone : c.place ≠ .done) : c.Orderly := by
    obtain ⟨asked, later, hsent, hreceived⟩ := h
    exact ⟨hplace, asked, later, hsent, hreceived, fun h => absurd h hdone⟩
  rw [Kept] at h
  split at h
  case h_1 heq | h_2 heq =>
      obtain ⟨assigned, -, h⟩ := h
      exact ordered h.ordered (by simp [heq])
  case h_3 heq | h_4 heq => exact ordered h.ordered (by simp [heq])
  case h_5 heq =>
      obtain ⟨ns, h⟩ := h
      refine ⟨hplace, ns, [], ?_, forall_bears h.received, ?_⟩
      · have hsent := h.sent
        rw [h.numbers] at hsent
        exact hsent
      · intro _
        exact ⟨rfl, (List.forall₂_and_left _ _ |>.mp h.received).1⟩
  case h_6 heq => exact absurd heq hplace
  case h_7 heq => exact ordered h (by simp [heq])

/-- What the second loop does at an entry. -/
theorem Walk.Collecting.receiveNext {ns : List UInt32} {rest : List (Option UInt32)}
    (h : c.Collecting opened ns rest c.received) (hk : ns.length = c.k) :
    c.receiveNext.Kept opened := by
  have hentry : c.nFiles[c.k]? = rest.head? := by
    rw [h.table, List.getElem?_append_right (by simp [hk]), List.length_map, hk, Nat.sub_self,
      List.head?_eq_getElem?]
  rw [Walk.receiveNext, hentry]
  match rest with
  | [] => exact ⟨ns, h.table, h.marks, h.sent, h.received⟩
  | none :: rest =>
      change false ∈ opened
      rw [← h.marks, h.table]
      simp
  | some n :: rest =>
      exact ⟨ns, rest, _, c.received, ⟨h.table, h.marks, h.sent, h.received⟩, hk, rfl,
        bears_first _ n, ⟨_, List.mem_cons_self, rfl⟩, False.elim⟩

/-- All entries of the table are assigned or skipped, and the second loop starts. -/
theorem Walk.Announcing.collecting {assigned : List (Option UInt32)}
    (h : c.Announcing opened assigned []) :
    { c with k := 0, files := [] }.Collecting opened [] c.nFiles c.received := by
  have htable : c.nFiles = assigned := by simpa using h.table
  refine ⟨rfl, ?_, ?_, ?_⟩
  · simpa [htable] using h.marks
  · simpa [htable] using h.sent
  · rw [h.received]
    exact .nil

theorem Walk.Announcing.sendNext (binary : Bool) {assigned : List (Option UInt32)}
    {files : List InputFile} (h : c.Announcing opened assigned files)
    (hk : assigned.length = c.k) : (sendNext binary files c).Kept opened := by
  induction files generalizing c assigned with
  | nil => exact h.collecting.receiveNext rfl
  | cons f files ih =>
      rw [Walk.sendNext]
      split
      case h_1 => exact h.ordered
      case h_2 hprepare =>
          have hskip : { c with k := c.k + 1 }.Announcing opened (assigned ++ [none]) files := by
            refine ⟨?_, ?_, ?_, h.received⟩
            · rw [h.table, List.append_assoc]
              rfl
            · rw [← h.marks, List.map_append, List.append_assoc]
              simp [← InputFile.prepare_isSome hprepare]
            · rw [List.reduceOption_append, List.reduceOption_cons_of_none,
                List.reduceOption_nil, List.append_nil]
              exact h.sent
          exact ih hskip (by simp [hk])
      case h_3 n hprepare =>
          refine ⟨assigned, hk, ?_, ?_, ?_, h.received⟩
          · exact table_set h.table hk n
          · rw [← h.marks, List.map_append, List.append_assoc]
            exact congrArg (_ ++ · :: _) (InputFile.prepare_isSome hprepare)
          · rw [List.reduceOption_append, List.reverse_append]
            exact .cons (bears_first _ n) h.sent

/-- One more request for the file at hand. -/
theorem Walk.Announcing.ask {assigned : List (Option UInt32)} {files : List InputFile} {w : Wait}
    (hw : w = .query ∨ w = .send)
    (h : c.Announcing opened (assigned ++ [some c.nFile]) files) :
    (c.ask w).Announcing opened (assigned ++ [some c.nFile]) files := by
  have hsent : List.Forall₂ Bears (c.sent.modifyHead (⟨w.frameType, c.nFile⟩ :: ·))
      (assigned ++ [some c.nFile]).reduceOption.reverse := by
    have hsent := h.sent
    rw [List.reduceOption_append, List.reverse_append] at hsent ⊢
    generalize c.sent = sent at hsent
    cases hsent with
    | cons hbears hrest => exact .cons (hbears.ask _) hrest
  rcases hw with rfl | rfl
  all_goals exact ⟨h.table, h.marks, hsent, h.received⟩

theorem Walk.Asking.poll {recv : Prop} (h : c.Asking opened recv) :
    (c.ask .poll).Asking opened recv := by
  obtain ⟨ns, rest, g, gs, hc, hk, hreceived, hbears, hquery, hrecv⟩ := h
  refine ⟨ns, rest, _ :: g, gs, ⟨hc.table, hc.marks, hc.sent, hc.received⟩, hk, ?_, hbears.ask _,
    ⟨_, List.mem_cons_self, rfl⟩, ?_⟩
  · exact congrArg (List.modifyHead _) hreceived
  · intro h
    obtain ⟨r, hr, htype⟩ := hrecv h
    exact ⟨r, List.mem_cons_of_mem _ hr, htype⟩

theorem Walk.Asking.recv {recv : Prop} (h : c.Asking opened recv) :
    (c.ask .recv).Asking opened True := by
  obtain ⟨ns, rest, g, gs, hc, hk, hreceived, hbears, ⟨r, hr, htype⟩, -⟩ := h
  refine ⟨ns, rest, _ :: g, gs, ⟨hc.table, hc.marks, hc.sent, hc.received⟩, hk, ?_, hbears.ask _,
    ⟨r, List.mem_cons_of_mem _ hr, htype⟩, fun _ => ⟨_, List.mem_cons_self, rfl⟩⟩
  exact congrArg (List.modifyHead _) hreceived

/-- The picture at hand was collected. -/
theorem Walk.Asking.receiveNext (h : c.Asking opened True) :
    ({ c with k := c.k + 1 } : Walk).receiveNext.Kept opened := by
  obtain ⟨ns, rest, g, gs, hc, hk, hreceived, hbears, hquery, hrecv⟩ := h
  have hnext : ({ c with k := c.k + 1 } : Walk).Collecting opened (ns ++ [c.nFile]) rest
      c.received := by
    refine ⟨?_, hc.marks, hc.sent, ?_⟩
    · rw [hc.table, List.map_append, List.append_assoc]
      rfl
    · rw [hreceived, List.reverse_append]
      exact .cons ⟨⟨hquery, hrecv trivial⟩, hbears⟩ hc.received
  exact hnext.receiveNext (by simp [hk])

theorem Walk.next_kept {binary : Bool} {c' : Walk} {got : Got} (h : c.Kept opened)
    (hnext : c.Step binary got c') : c'.Kept opened := by
  have asks {w : Wait} (hplace : c.place = .waiting w) : (c.ask w).Kept opened := by
    rw [Kept, hplace] at h
    cases w with
    | query =>
        obtain ⟨assigned, hk, h⟩ := h
        exact ⟨assigned, hk, h.ask (.inl rfl)⟩
    | send =>
        obtain ⟨assigned, hk, h⟩ := h
        exact ⟨assigned, hk, h.ask (.inr rfl)⟩
    | poll => exact h.poll
    | recv => exact h.recv
  unfold Step Walk.next at hnext
  split at hnext
  case h_1 w hplace =>
      cases hnext
      exact asks hplace
  case h_2 status _ hplace =>
      rw [Kept, hplace] at h
      obtain ⟨assigned, hk, h⟩ := h
      split at hnext
      · cases hnext
        exact ⟨assigned, hk, h.ask (.inr rfl)⟩
      · cases hnext
        have hnext : ({ c with k := c.k + 1 } : Walk).Announcing opened
            (assigned ++ [some c.nFile]) c.files := ⟨h.table, h.marks, h.sent, h.received⟩
        exact hnext.sendNext binary (by simp [hk])
  case h_3 hplace =>
      rw [Kept, hplace] at h
      obtain ⟨assigned, hk, h⟩ := h
      cases hnext
      exact ⟨assigned, hk, h.ask (.inl rfl)⟩
  case h_4 status calloc hplace =>
      rw [Kept, hplace] at h
      split at hnext
      · cases hnext
        exact h.poll
      · split at hnext
        · cases hnext
          exact h.recv
        · cases hnext
          exact h.ordered
  case h_5 sum hplace =>
      rw [Kept, hplace] at h
      split at hnext
      · cases hnext
        exact h.recv
      · cases hnext
        exact h.receiveNext
  case h_6 => contradiction

theorem Walk.init_kept (binary : Bool) (files : List InputFile) :
    (init binary files).Kept (files.map InputFile.opens) := by
  have hstart : (start files).Announcing (files.map InputFile.opens) [] files :=
    ⟨rfl, rfl, .nil, rfl⟩
  exact hstart.sendNext binary rfl

end Kept

/-! The run in which every picture is processed when it is asked for. -/

section Reach
variable {binary : Bool} {c : Walk}

theorem Walk.receiveNext_reaches {rest : List (Option UInt32)} (hrest : c.nFiles.drop c.k = rest)
    (hnone : none ∈ rest) : ∃ es c', Run (Walk.Step binary) c.receiveNext es c' ∧
      c'.place = .unassigned := by
  induction rest generalizing c with
  | nil => contradiction
  | cons r rest ih =>
      have hentry : c.nFiles[c.k]? = some r := by rw [← List.head?_drop, hrest, List.head?_cons]
      rw [receiveNext, hentry]
      cases r with
      | none => exact ⟨[], _, .nil _, rfl⟩
      | some n =>
          let polled := ({ c with nFile := n, received := [] :: c.received } : Walk).ask .poll
          let fetched := polled.ask .recv
          let next : Walk := { fetched with k := fetched.k + 1 }
          have htail : next.nFiles.drop next.k = rest := by
            have h := congrArg List.tail hrest
            rwa [List.tail_drop] at h
          obtain ⟨es, c', hrun, hplace⟩ := ih htail (by simpa using hnone)
          have hreply : polled.Step binary (.reply statusProcessed true) fetched := rfl
          have hdata : fetched.Step binary (.data 0) next.receiveNext := rfl
          exact ⟨_, c', .cons hreply (.cons hdata hrun), hplace⟩

theorem Walk.sendNext_reaches {files : List InputFile} {assigned : List (Option UInt32)}
    (htable : c.nFiles = assigned ++ List.replicate files.length none)
    (hk : assigned.length = c.k)
    (hends : ¬ EndsAt binary c.k files) (hskip : none ∈ assigned ∨ ∃ f ∈ files, ¬ f.opens) :
    ∃ es c', Run (Walk.Step binary) (sendNext binary files c) es c' ∧
      c'.place = .unassigned := by
  induction files generalizing c assigned with
  | nil =>
      have hnone : none ∈ c.nFiles := by simpa [htable] using hskip
      exact receiveNext_reaches (c := { c with k := 0, files := [] }) rfl hnone
  | cons f files ih =>
      rw [endsAt_cons, not_or] at hends
      obtain ⟨hnot, hrest⟩ := hends
      obtain ⟨r, hr⟩ : ∃ r, f.prepare binary c.k = .ok r := by
        cases heq : f.prepare binary c.k with
        | error e => exact absurd ⟨e, heq⟩ hnot
        | ok r => exact ⟨r, rfl⟩
      have hlength : (assigned ++ [r]).length = c.k + 1 := by simp [hk]
      have hskip' : none ∈ assigned ++ [r] ∨ ∃ f ∈ files, ¬ f.opens := by
        have hisSome := InputFile.prepare_isSome hr
        rcases hskip with hnone | ⟨g, hg, hopens⟩
        · exact .inl (List.mem_append_left _ hnone)
        · rcases List.mem_cons.mp hg with rfl | hg
          · rw [← hisSome, Option.not_isSome_iff_eq_none] at hopens
            exact .inl (by simp [hopens])
          · exact .inr ⟨g, hg, hopens⟩
      rw [sendNext, hr]
      cases r with
      | none =>
          have htable' : ({ c with k := c.k + 1 } : Walk).nFiles =
              assigned ++ [none] ++ List.replicate files.length none := by
            rw [htable, List.append_assoc]
            rfl
          exact ih htable' hlength hrest hskip'
      | some n =>
          let asked := ({ c with
            files
            nFile := n
            nFiles := c.nFiles.set c.k (some n)
            sent := [] :: c.sent } : Walk).ask .query
          have htable' : ({ asked with k := asked.k + 1 } : Walk).nFiles =
              assigned ++ [some n] ++ List.replicate files.length none := table_set htable hk n
          obtain ⟨es, c', hrun, hplace⟩ := ih htable' hlength hrest hskip'
          have hreply : asked.Step binary (.reply statusProcessed true)
              (sendNext binary files { asked with k := asked.k + 1 }) := rfl
          exact ⟨_, c', .cons hreply hrun, hplace⟩

theorem Walk.init_reaches {files : List InputFile} (hends : ¬ EndsAt binary 0 files)
    (hskip : ∃ f ∈ files, ¬ f.opens) :
    ∃ es c, Run (Walk.Step binary) (init binary files) es c ∧ c.place = .unassigned :=
  sendNext_reaches (c := start files) rfl (List.length_nil) hends (.inr hskip)

end Reach

/-! A file at which the process ends keeps the second loop from being reached. -/

def Walk.Short (binary : Bool) (c : Walk) : Prop :=
  match c.place with
  | .waiting .query | .waiting .send => EndsAt binary (c.k + 1) c.files
  | .exited => True
  | _ => False

theorem Walk.sendNext_short {binary : Bool} {files : List InputFile} {c : Walk}
    (h : EndsAt binary c.k files) : (sendNext binary files c).Short binary := by
  induction files generalizing c with
  | nil =>
      obtain ⟨i, f, e, hf, -⟩ := h
      simp at hf
  | cons f files ih =>
      rw [sendNext]
      split
      case h_1 => trivial
      case h_2 hprepare => exact ih ((endsAt_cons.mp h).resolve_left (by simp [hprepare]))
      case h_3 hprepare => exact (endsAt_cons.mp h).resolve_left (by simp [hprepare])

theorem Walk.next_short {binary : Bool} {c c' : Walk} {got : Got} (h : c.Short binary)
    (hnext : c.Step binary got c') : c'.Short binary := by
  unfold Step Walk.next at hnext
  split at hnext
  case h_1 w hplace =>
      cases hnext
      rw [Short, hplace] at h
      cases w with
      | query | send => exact h
      | poll | recv => contradiction
  case h_2 hplace =>
      rw [Short, hplace] at h
      split at hnext
      · cases hnext
        exact h
      · cases hnext
        exact sendNext_short h
  case h_3 hplace =>
      cases hnext
      rw [Short, hplace] at h
      exact h
  case h_4 hplace | h_5 hplace =>
      rw [Short, hplace] at h
      contradiction
  case h_6 => contradiction

/-- Every run is in order exactly when every file can be opened, or the process ends at one of the
files in the first loop. -/
theorem files_orderly_iff (binary : Bool) (files : List InputFile) :
    (∀ es c, Run (Walk.Step binary) (Walk.init binary files) es c → c.Orderly) ↔
      (∀ f ∈ files, f.opens) ∨ EndsAt binary 0 files := by
  constructor
  · intro h
    by_contra hnot
    rw [not_or] at hnot
    obtain ⟨hskip, hends⟩ := hnot
    have hopens : ∃ f ∈ files, ¬ f.opens := by simpa using hskip
    obtain ⟨es, c, hrun, hplace⟩ := Walk.init_reaches hends hopens
    exact (h es c hrun).1 hplace
  · intro h es c hrun
    have hkept : c.Kept (files.map InputFile.opens) :=
      hrun.invariant (fun _ _ _ h hstep => Walk.next_kept h hstep) (Walk.init_kept binary files)
    refine hkept.orderly ?_
    intro hplace
    rcases h with hopens | hends
    · rw [Walk.Kept, hplace] at hkept
      obtain ⟨f, hf, hfalse⟩ := List.mem_map.mp hkept
      exact absurd (hopens f hf) (by simp [hfalse])
    · have hstart : (Walk.init binary files).Short binary := Walk.sendNext_short hends
      have hshort : c.Short binary :=
        hrun.invariant (fun _ _ _ h hstep => Walk.next_short h hstep) hstart
      rw [Walk.Short, hplace] at hshort
      contradiction

/-- The first of two pictures is missing, and the second is sent. -/
theorem files_unassigned : ∃ es c,
    Run (Walk.Step false) (Walk.init false [{ opens := false },
      { opens := true, content := [7], block := some [zeroFrame] }]) es c ∧ ¬ c.Orderly := by
  have hends : ¬ EndsAt false 0 [{ opens := false },
      { opens := true, content := [7], block := some [zeroFrame] }] := by
    rintro ⟨i, f, e, hf, he⟩
    match i with
    | 0 | 1 =>
        cases hf
        cases he
    | i + 2 => simp at hf
  obtain ⟨es, c, hrun, hplace⟩ :=
    Walk.init_reaches hends ⟨{ opens := false }, List.mem_cons_self, by decide⟩
  exact ⟨es, c, hrun, fun h => h.1 hplace⟩

end Soc
