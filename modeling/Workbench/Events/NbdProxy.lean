import Mathlib.Logic.Function.Basic
import Workbench.Lib.System

/-!
# `Events.NbdProxy` — blocks of a disk, kept in chunks

The chunks are allocated with `operator new`, which returns any free address, with any bytes. Where the code reads or
frees a chunk that is not live, a command has no result here.

## Contents
* `parseData` — the command of a request;
* `ReadCmd.run`, `WriteCmd.run` — the commands;
* `Disk` — what the requests amount to, with the blocks that were read since they were written;
* `Inv`, `exec_inv` — the blocks that were not are in live chunks;
* `reads_once` — what the proxy replies;
* `proxy_is_a_disk` — the main result, and `read_frees`, where it is not.
-/

namespace Workbench.Events.NbdProxy

abbrev Key := BitVec 64

abbrev Block := Vector UInt8 4096

def zeros : Block := Vector.replicate 4096 0

/-! ## Requests -/

/-- The number that the bytes are, the first one the highest. -/
def be64toh (bytes : List UInt8) : Key := BitVec.ofNat 64 (bytes.foldl (fun n byte => 256 * n + byte.toNat) 0)

/-- A request for one block, in network order. -/
structure Request where
  type : List UInt8
  handle : List UInt8
  from_ : List UInt8

/-- The types that are registered with the framework. -/
inductive CmdType
  | readCmd
  | writeCmd
  deriving DecidableEq

/-- The arguments of a command, which replies with `NbdReply`. -/
structure CmdArgs where
  fd : Int
  key : Key
  rep : List UInt8
  block : Block

def nbdReplyMagic : List UInt8 := [0x67, 0x44, 0x66, 0x98]

/-- What is read from `sk` is a request, or nothing, and then the payload of a write. `block` is what the buffer of the
    arguments has before. -/
def parseData (sk : Int) (request : Option Request) (payload block : Block) : Option (CmdType × CmdArgs) := do
  let request ← request
  let rep := nbdReplyMagic ++ [0, 0, 0, 0] ++ request.handle
  let key := be64toh request.from_
  if request.type = [0, 0, 0, 0] then return (.readCmd, ⟨sk, key, rep, block⟩)
  else return (.writeCmd, ⟨sk, key, rep, payload⟩)

/-- The bytes of a key in network order. -/
def htobe64 (key : Key) : List UInt8 := [7, 6, 5, 4, 3, 2, 1, 0].map fun i => UInt8.ofNat (key.toNat >>> (8 * i))

theorem be64toh_htobe64 (key : Key) : be64toh (htobe64 key) = key := by
  have hlt := key.isLt
  refine BitVec.eq_of_toNat_eq ?_
  simp only [be64toh, htobe64, List.map_cons, List.map_nil, List.foldl_cons, List.foldl_nil, UInt8.toNat_ofNat',
    BitVec.toNat_ofNat, Nat.shiftRight_eq_div_pow]
  omega

/-- There is a request for each command on each key. -/
theorem exists_request (sk : Int) (type : CmdType) (key : Key) (payload block : Block) :
    ∃ request args, parseData sk (some request) payload block = some (type, args) ∧ args.key = key ∧
      (type = .writeCmd → args.block = payload) := by
  cases type with
  | readCmd => exact ⟨⟨[0, 0, 0, 0], [], htobe64 key⟩, _, rfl, be64toh_htobe64 key, nofun⟩
  | writeCmd => exact ⟨⟨[0, 0, 0, 1], [], htobe64 key⟩, _, rfl, be64toh_htobe64 key, fun _ => rfl⟩

/-! ## Commands -/

variable {ι : Type} [DecidableEq ι]

/-- The live chunks, and the map of the keys. -/
structure State (ι : Type) where
  memory : ι → Option Block
  chunksMap : Key → Option ι

def memset (chunk : Block) (c : UInt8) (num : Nat) : Block :=
  Vector.ofFn fun i => if i.1 < num then c else chunk[i]

/-- What is written to a descriptor. -/
abbrev Reply := Int × List UInt8

/-- `operator new` has returned `chunk`, with the bytes `contents`. -/
def ReadCmd.run (s : State ι) (args : CmdArgs) (chunk : ι) (contents : Block) : Option (State ι × List Reply) := do
  let memory := Function.update s.memory chunk (some contents)
  let (memory, chunk) := match s.chunksMap args.key with
    | none => (Function.update memory chunk (some (memset contents 0 1)), chunk)
    | some stored => (memory, stored)
  let block ← memory chunk
  return ({ s with memory := Function.update memory chunk none }, [(args.fd, args.rep), (args.fd, block.toList)])

/-- `operator new` has returned `chunk`. -/
def WriteCmd.run (s : State ι) (args : CmdArgs) (chunk : ι) : State ι × List Reply :=
  ({ memory := Function.update s.memory chunk (some args.block),
     chunksMap := Function.update s.chunksMap args.key (some chunk) }, [(args.fd, args.rep)])

/-- A command, and what `operator new` returns to it. -/
structure Call (ι : Type) where
  type : CmdType
  args : CmdArgs
  chunk : ι
  contents : Block

def run (s : State ι) (call : Call ι) : Option (State ι × List Reply) :=
  match call.type with
  | .readCmd => ReadCmd.run s call.args call.chunk call.contents
  | .writeCmd => some (WriteCmd.run s call.args call.chunk)

/-! ## The disk -/

/-- The block of each key that was written, and whether it was read since. -/
structure Disk where
  block : Key → Option Block
  read : Key → Bool

def Disk.get (disk : Disk) (key : Key) : Block := (disk.block key).getD zeros

def Disk.exec (disk : Disk) (type : CmdType) (args : CmdArgs) : Disk :=
  match type with
  | .readCmd => { disk with read := Function.update disk.read args.key true }
  | .writeCmd => { block := Function.update disk.block args.key (some args.block),
                   read := Function.update disk.read args.key false }

def Disk.replies (disk : Disk) (type : CmdType) (args : CmdArgs) : List Reply :=
  match type with
  | .readCmd => [(args.fd, args.rep), (args.fd, (disk.get args.key).toList)]
  | .writeCmd => [(args.fd, args.rep)]

/-- The runs of the commands, along with the disk. -/
def proxy (ι : Type) [DecidableEq ι] : System (State ι × Disk) (Call ι) where
  init s := s = (⟨fun _ => none, fun _ => none⟩, ⟨fun _ => none, fun _ => false⟩)
  step s call s' := s.1.memory call.chunk = none ∧ s'.2 = s.2.exec call.type call.args ∧
    ∃ replies, run s.1 call = some (s'.1, replies)

/-- **The map refers to live chunks only.** -/
def NoDangling (s : State ι) : Prop := ∀ key chunk, s.chunksMap key = some chunk → s.memory chunk ≠ none

/-- **What a command should do**: it replies as the disk does, and frees no chunk that the map refers to. -/
def Meets (s : State ι) (disk : Disk) (call : Call ι) : Prop :=
  ∃ s', run s call = some (s', disk.replies call.type call.args) ∧ NoDangling s'

/-- The bytes after the first one are 0. -/
def TailZero (contents : Block) : Prop := ∀ i (hi : i < 4096), 0 < i → contents[i] = 0

/-- No key is read that was written, and the new chunk of a read has zeros after the first byte. -/
def Sound (s : State ι × Disk) (call : Call ι) : Prop :=
  call.type = .readCmd → s.1.chunksMap call.args.key = none ∧ TailZero call.contents

/-- No key is read twice after it was written, and the new chunk of another read has zeros after the first byte. -/
def Once (s : State ι × Disk) (call : Call ι) : Prop :=
  call.type = .readCmd → if s.1.chunksMap call.args.key = none then TailZero call.contents
    else s.2.read call.args.key = false

/-- **The blocks that were not read since they were written are in live chunks**, one chunk for each. -/
structure Inv (s : State ι) (disk : Disk) : Prop where
  written : ∀ key, s.chunksMap key = none ↔ disk.block key = none
  stored : ∀ key block, disk.block key = some block → disk.read key = false →
    ∃ chunk, s.chunksMap key = some chunk ∧ s.memory chunk = some block
  apart : ∀ key key' chunk, s.chunksMap key = some chunk → s.chunksMap key' = some chunk →
    disk.read key = false → disk.read key' = false → key = key'

/-! ## One command -/

variable {s s' : State ι} {disk : Disk} {args : CmdArgs} {key : Key} {chunk stored : ι} {contents block : Block}

theorem getElem_memset {c : UInt8} {num i : Nat} (hi : i < 4096) :
    (memset contents c num)[i] = if i < num then c else contents[i] := by
  simp only [memset, Vector.getElem_ofFn, Fin.getElem_fin]

/-- One byte is set, and the others have to be 0 already. -/
theorem memset_eq_zeros_iff : memset contents 0 1 = zeros ↔ TailZero contents := by
  constructor
  · intro heq i hi hpos
    have hget : (memset contents 0 1)[i] = zeros[i] := by simp only [heq]
    rw [getElem_memset, if_neg (Nat.not_lt_of_le hpos), zeros, Vector.getElem_replicate] at hget
    exact hget
  · intro htail
    refine Vector.ext fun i hi => ?_
    rw [getElem_memset, zeros, Vector.getElem_replicate]
    split
    · rfl
    · next hpos => exact htail i hi (Nat.le_of_not_lt hpos)

/-- A key that is not in the map: the new chunk is freed again. -/
theorem readCmd_absent (hfree : s.memory chunk = none) (hkey : s.chunksMap args.key = none) :
    ReadCmd.run s args chunk contents =
      some (s, [(args.fd, args.rep), (args.fd, (memset contents 0 1).toList)]) := by
  have hmemory : Function.update s.memory chunk none = s.memory := by rw [← hfree, Function.update_eq_self]
  simp only [ReadCmd.run, hkey, Function.update_self, Function.update_idem, hmemory]
  rfl

/-- A key that is in the map: the chunk of the map is freed, and not the new one. -/
theorem readCmd_stored (hfree : s.memory chunk = none) (hkey : s.chunksMap args.key = some stored)
    (hstored : s.memory stored = some block) :
    ReadCmd.run s args chunk contents =
      some ({ s with memory := Function.update (Function.update s.memory chunk (some contents)) stored none },
        [(args.fd, args.rep), (args.fd, block.toList)]) := by
  have hne : stored ≠ chunk := by
    rintro rfl
    rw [hfree] at hstored
    cases hstored
  simp only [ReadCmd.run, hkey, Function.update_of_ne hne, hstored]
  rfl

omit [DecidableEq ι] in
theorem Inv.live (h : Inv s disk) (hkey : s.chunksMap key = some chunk) (hread : disk.read key = false) :
    s.memory chunk ≠ none := by
  have hwritten : disk.block key ≠ none := fun hnone => by
    rw [(h.written key).mpr hnone] at hkey
    cases hkey
  obtain ⟨block, hblock⟩ := Option.ne_none_iff_exists'.mp hwritten
  obtain ⟨chunk', hkey', hmemory⟩ := h.stored key block hblock hread
  rw [hkey] at hkey'
  cases hkey'
  rw [hmemory]
  exact Option.some_ne_none block

theorem Inv.write (h : Inv s disk) (hfree : s.memory chunk = none) :
    Inv (WriteCmd.run s args chunk).1 (disk.exec .writeCmd args) := by
  have hother : ∀ key, s.chunksMap key = some chunk → disk.read key = false → False := fun key hkey hread =>
    h.live hkey hread hfree
  refine ⟨fun key => ?_, fun key block => ?_, fun key key' chunk' => ?_⟩
  · show Function.update s.chunksMap args.key _ key = none ↔ Function.update disk.block args.key _ key = none
    by_cases hkey : key = args.key
    · simp [hkey]
    · rw [Function.update_of_ne hkey, Function.update_of_ne hkey]
      exact h.written key
  · show Function.update disk.block args.key _ key = _ → Function.update disk.read args.key _ key = _ →
      ∃ chunk', Function.update s.chunksMap args.key _ key = _ ∧ Function.update s.memory chunk _ chunk' = _
    by_cases hkey : key = args.key
    · rw [hkey, Function.update_self, Function.update_self]
      exact fun hblock _ => ⟨chunk, Function.update_self .., by rw [Function.update_self, hblock]⟩
    · rw [Function.update_of_ne hkey, Function.update_of_ne hkey, Function.update_of_ne hkey]
      intro hblock hread
      obtain ⟨chunk', hchunk', hmemory⟩ := h.stored key block hblock hread
      have hne : chunk' ≠ chunk := by
        rintro rfl
        exact hother key hchunk' hread
      exact ⟨chunk', hchunk', by rw [Function.update_of_ne hne, hmemory]⟩
  · show Function.update s.chunksMap args.key _ key = _ → Function.update s.chunksMap args.key _ key' = _ →
      Function.update disk.read args.key _ key = _ → Function.update disk.read args.key _ key' = _ → _
    by_cases hkey : key = args.key
    · by_cases hkey' : key' = args.key
      · exact fun _ _ _ _ => hkey.trans hkey'.symm
      · rw [hkey, Function.update_self, Function.update_of_ne hkey', Function.update_of_ne hkey']
        rintro ⟨⟩ hchunk' - hread'
        exact (hother key' hchunk' hread').elim
    · by_cases hkey' : key' = args.key
      · rw [hkey', Function.update_self, Function.update_of_ne hkey, Function.update_of_ne hkey]
        rintro hchunk' ⟨⟩ hread -
        exact (hother key hchunk' hread).elim
      · rw [Function.update_of_ne hkey, Function.update_of_ne hkey', Function.update_of_ne hkey,
          Function.update_of_ne hkey']
        exact h.apart key key' chunk'

/-- A key that is not read yet is another one than a key that is read now. -/
theorem read_exec (hread : (disk.exec .readCmd args).read key = false) :
    key ≠ args.key ∧ disk.read key = false := by
  have hne : key ≠ args.key := by
    rintro rfl
    cases (Function.update_self ..).symm.trans hread
  exact ⟨hne, (Function.update_of_ne hne _ _).symm.trans hread⟩

omit [DecidableEq ι] in
theorem Inv.read_absent (h : Inv s disk) : Inv s (disk.exec .readCmd args) := by
  refine ⟨h.written, fun key block hblock hread => ?_, fun key key' chunk hkey hkey' hread hread' => ?_⟩
  · exact h.stored key block hblock (read_exec hread).2
  · exact h.apart key key' chunk hkey hkey' (read_exec hread).2 (read_exec hread').2

theorem Inv.read_stored (h : Inv s disk) (hfree : s.memory chunk = none) (hkey : s.chunksMap args.key = some stored)
    (hread : disk.read args.key = false) :
    Inv { s with memory := Function.update (Function.update s.memory chunk (some contents)) stored none }
      (disk.exec .readCmd args) := by
  refine ⟨h.written, fun key block hblock hread' => ?_, fun key key' chunk hkey hkey' hread hread' => ?_⟩
  · obtain ⟨hne, hunread⟩ := read_exec hread'
    obtain ⟨chunk', hchunk', hmemory⟩ := h.stored key block hblock hunread
    have hstored : chunk' ≠ stored := by
      rintro rfl
      exact hne (h.apart key args.key chunk' hchunk' hkey hunread hread)
    have hchunk : chunk' ≠ chunk := by
      rintro rfl
      rw [hfree] at hmemory
      cases hmemory
    refine ⟨chunk', hchunk', ?_⟩
    show Function.update (Function.update s.memory chunk _) stored _ chunk' = _
    rw [Function.update_of_ne hstored, Function.update_of_ne hchunk, hmemory]
  · exact h.apart key key' chunk hkey hkey' (read_exec hread).2 (read_exec hread').2

/-- **A command replies as the disk does**, if its key is not read a second time. -/
theorem exec_inv (h : Inv s disk) {call : Call ι} (hfree : s.memory call.chunk = none) (honce : Once (s, disk) call) :
    ∃ s', run s call = some (s', disk.replies call.type call.args) ∧ Inv s' (disk.exec call.type call.args) := by
  obtain ⟨type, args, chunk, contents⟩ := call
  cases type with
  | writeCmd => exact ⟨_, rfl, h.write hfree⟩
  | readCmd =>
      have hread := honce rfl
      by_cases hkey : s.chunksMap args.key = none
      · rw [if_pos hkey] at hread
        refine ⟨s, ?_, h.read_absent⟩
        show ReadCmd.run s args chunk contents = _
        rw [readCmd_absent hfree hkey, memset_eq_zeros_iff.mpr hread]
        simp only [Disk.replies, Disk.get, (h.written args.key).mp hkey, Option.getD_none]
      · rw [if_neg hkey] at hread
        obtain ⟨block, hblock⟩ := Option.ne_none_iff_exists'.mp (mt (h.written args.key).mpr hkey)
        obtain ⟨stored, hstored, hmemory⟩ := h.stored args.key block hblock hread
        have hreplies : disk.replies .readCmd args = [(args.fd, args.rep), (args.fd, block.toList)] := by
          simp only [Disk.replies, Disk.get, hblock, Option.getD_some]
        rw [hreplies]
        exact ⟨_, readCmd_stored hfree hstored hmemory, h.read_stored hfree hstored hread⟩

/-! ## Runs -/

/-- No key in the map was read since it was written. -/
def Unread (s : State ι × Disk) : Prop := ∀ key, s.1.chunksMap key ≠ none → s.2.read key = false

omit [DecidableEq ι] in
theorem Sound.once {s : State ι × Disk} {call : Call ι} (h : Sound s call) : Once s call := by
  intro hread
  obtain ⟨hkey, htail⟩ := h hread
  rwa [if_pos hkey]

omit [DecidableEq ι] in
theorem Inv.noDangling (h : Inv s disk) (hunread : Unread (s, disk)) : NoDangling s := by
  intro key chunk hkey
  refine h.live hkey (hunread key ?_)
  rw [hkey]
  exact Option.some_ne_none chunk

theorem unread_exec (hunread : Unread (s, disk)) {call : Call ι} (hfree : s.memory call.chunk = none)
    (hsound : Sound (s, disk) call) {replies : List Reply} (hrun : run s call = some (s', replies)) :
    Unread (s', disk.exec call.type call.args) := by
  obtain ⟨type, args, chunk, contents⟩ := call
  intro key hkey
  cases type with
  | writeCmd =>
      obtain rfl := (Prod.mk.inj (Option.some.inj hrun)).1
      show Function.update disk.read args.key false key = false
      by_cases heq : key = args.key
      · rw [heq, Function.update_self]
      · rw [Function.update_of_ne heq]
        exact hunread key ((Function.update_of_ne heq _ _).symm.trans_ne hkey)
  | readCmd =>
      obtain ⟨habsent, -⟩ := hsound rfl
      obtain rfl := (Prod.mk.inj (Option.some.inj (hrun.symm.trans (readCmd_absent hfree habsent)))).1
      have hne : key ≠ args.key := by
        rintro rfl
        exact hkey habsent
      exact (Function.update_of_ne hne _ _).trans (hunread key hkey)

/-- **A command does what it should if and only if it is sound**, where no key in the map was read. -/
theorem meets_iff (h : Inv s disk) (hunread : Unread (s, disk)) {call : Call ι} (hfree : s.memory call.chunk = none) :
    Meets s disk call ↔ Sound (s, disk) call := by
  constructor
  · intro hmeets hread
    obtain ⟨type, args, chunk, contents⟩ := call
    obtain rfl : type = .readCmd := hread
    obtain ⟨s', hrun, hdangling⟩ := hmeets
    by_cases hkey : s.chunksMap args.key = none
    · -- the reply has the bytes of the new chunk
      have hreplies := Option.some.inj ((readCmd_absent hfree hkey).symm.trans hrun)
      simp only [Disk.replies, Disk.get, (h.written args.key).mp hkey, Option.getD_none, Prod.mk.injEq, List.cons.injEq,
        true_and, and_true] at hreplies
      exact ⟨hkey, memset_eq_zeros_iff.mp (Vector.toList_inj.mp hreplies.2)⟩
    · -- the chunk in the map is freed
      obtain ⟨stored, hstored⟩ := Option.ne_none_iff_exists'.mp hkey
      obtain ⟨block, hblock⟩ := Option.ne_none_iff_exists'.mp (h.noDangling hunread args.key stored hstored)
      obtain ⟨rfl, -⟩ := Prod.mk.inj (Option.some.inj (hrun.symm.trans (readCmd_stored hfree hstored hblock)))
      exact absurd (Function.update_self ..) (hdangling args.key stored hstored)
  · intro hsound
    obtain ⟨s', hrun, hinv⟩ := exec_inv h hfree hsound.once
    exact ⟨s', hrun, hinv.noDangling (unread_exec hunread hfree hsound hrun)⟩

omit [DecidableEq ι] in
theorem inv_init : Inv (ι := ι) ⟨fun _ => none, fun _ => none⟩ ⟨fun _ => none, fun _ => false⟩ :=
  ⟨fun _ => ⟨fun _ => rfl, fun _ => rfl⟩, fun _ _ hblock => (nomatch hblock), fun _ _ _ hkey => (nomatch hkey)⟩

theorem inv_step {s s' : State ι × Disk} {call : Call ι} (h : Inv s.1 s.2) (honce : Once s call)
    (hstep : (proxy ι).step s call s') : Inv s'.1 s'.2 := by
  obtain ⟨hfree, hdisk, replies, hrun⟩ := hstep
  obtain ⟨s'', hrun', hinv⟩ := exec_inv h hfree honce
  obtain ⟨rfl, -⟩ := Prod.mk.inj (Option.some.inj (hrun.symm.trans hrun'))
  rwa [hdisk]

theorem reachable_inv {s : State ι × Disk} (h : (proxy ι).Reachable Once s) : Inv s.1 s.2 := by
  refine System.invariant (s := s) ?_ (fun _ _ _ => inv_step) h
  rintro _ rfl
  exact inv_init

/-- **In a run where no key is read twice after it was written, the proxy replies as the disk does.** -/
theorem reads_once {s : State ι × Disk} (h : (proxy ι).Reachable Once s) {call : Call ι}
    (hfree : s.1.memory call.chunk = none) (honce : Once s call) :
    ∃ s', run s.1 call = some (s', s.2.replies call.type call.args) := by
  obtain ⟨s', hrun, -⟩ := exec_inv (reachable_inv h) hfree honce
  exact ⟨s', hrun⟩

/-- **In a run where no key is read that was written, the map refers to live chunks only.** A further command replies as
    the disk does, and frees no chunk that the map refers to, if and only if it is not such a read. -/
theorem proxy_is_a_disk {s : State ι × Disk} (h : (proxy ι).Reachable Sound s) :
    NoDangling s.1 ∧ ∀ call, s.1.memory call.chunk = none → (Meets s.1 s.2 call ↔ Sound s call) := by
  have hinv := reachable_inv (h.mono fun _ _ => Sound.once)
  have hunread : Unread s := by
    refine System.invariant ?_ ?_ h
    · rintro _ rfl
      exact fun _ _ => rfl
    · rintro s call s' hunread hsound ⟨hfree, hdisk, replies, hrun⟩
      have hunread' := unread_exec hunread hfree hsound hrun
      rwa [← hdisk] at hunread'
  exact ⟨hinv.noDangling hunread, fun _ => meets_iff hinv hunread⟩

theorem proxy_step {s : State ι × Disk} {call : Call ι} {replies : List Reply} (hfree : s.1.memory call.chunk = none)
    (hrun : run s.1 call = some (s', replies)) : (proxy ι).step s call (s', s.2.exec call.type call.args) :=
  ⟨hfree, rfl, replies, hrun⟩

/-- A block is written, and another one is read. -/
theorem proxy_sample :
    ∃ s, (proxy Nat).Reachable Sound s ∧ s.1.chunksMap 0 = some 0 ∧ NoDangling s.1 ∧
      Meets s.1 s.2 ⟨.readCmd, ⟨3, 1, [], zeros⟩, 1, zeros⟩ := by
  have hwrite : (proxy Nat).Reachable Sound _ :=
    .step (a := ⟨.writeCmd, ⟨3, 0, [], Vector.replicate 4096 7⟩, 0, zeros⟩) (.init rfl) nofun (proxy_step rfl rfl)
  obtain ⟨hlive, hmeets⟩ := proxy_is_a_disk hwrite
  exact ⟨_, hwrite, rfl, hlive, (hmeets _ rfl).mpr fun _ => ⟨rfl, fun i hi _ => Vector.getElem_replicate hi⟩⟩

/-- The chunk of a key is freed by the first read, and the second one follows a dangling pointer. The first read of
    another key replies with what the new chunk has. -/
theorem read_frees :
    (∃ s, (proxy Nat).Reachable System.Any s ∧ ¬ NoDangling s.1 ∧ s.1.memory 2 = none ∧
      run s.1 ⟨.readCmd, ⟨3, 0, [], zeros⟩, 2, zeros⟩ = none) ∧
    ∃ s, (proxy Nat).init s ∧ ¬ Meets s.1 s.2 ⟨.readCmd, ⟨3, 0, [], zeros⟩, 0, Vector.replicate 4096 7⟩ := by
  constructor
  · have hwrite : (proxy Nat).Reachable System.Any _ :=
      .step (a := ⟨.writeCmd, ⟨3, 0, [], zeros⟩, 0, zeros⟩) (.init rfl) trivial (proxy_step rfl rfl)
    have hread : (proxy Nat).Reachable System.Any _ :=
      .step (a := ⟨.readCmd, ⟨3, 0, [], zeros⟩, 1, zeros⟩) hwrite trivial (proxy_step rfl rfl)
    exact ⟨_, hread, fun hlive => hlive 0 0 rfl rfl, rfl, rfl⟩
  · refine ⟨_, rfl, fun hmeets => ?_⟩
    obtain ⟨-, htail⟩ := (meets_iff inv_init (fun _ _ => rfl) rfl).mp hmeets rfl
    have hone := htail 1 (by decide) Nat.one_pos
    rw [Vector.getElem_replicate] at hone
    exact absurd hone (by decide)

end Workbench.Events.NbdProxy
