import MiptMips.Kernel.IntegerEcho

/-!
# System calls that ask again

A call that reads a number or a character takes a word of the input. Where it is none, the message
goes to the error stream and the whole call is made again, a hundred times at most. Only these two
calls are ever made again, and a call that was made again has changed nothing but the two streams.
-/

namespace MiptMips

open Machines Throwing

variable {w : ℕ} {M : Type} [FuncMemory M]

/-- What an interactive call throws; `badInteraction` is "Too may unsuccessful system call attempts,
aborting". -/
inductive InteractionFault where
  | badInteraction
  | simulator (e : SimException)
  deriving DecidableEq, Repr

namespace MARSKernel

section Model

def text (s : String) : List Byte := s.toList.map fun c => BitVec.ofNat 8 c.toNat

/-- What an exception says. -/
def what (description message : String) : String := description ++ ":\t" ++ message ++ "\n"

/-- A refused word is answered on the error stream. -/
def complain (k : MARSKernel) (msg : String) : MARSKernel :=
  k.setStream (.host k.errstream)
    ((k.streams (.host k.errstream)).write (text (what "Bad input value" msg)))

variable (registers : RegisterSet) (openFile : List Byte → OpenMode → Option Stream)

/-- The exceptions that are caught: what was wrong with the input. -/
def caught : Except KernelException Trap → Except InteractionFault (Except String Trap)
  | .ok trap => .ok (.ok trap)
  | .error (.badInputValue msg) => .ok (.error msg)
  | .error (.simulator e) => .error (.simulator e)

/-- A call that may be made again. -/
def attempt : Throwing InteractionFault (MARSSystem w M) (Except String Trap) :=
  ExceptT.mk do
    let outcome ← (execute registers openFile).run
    return caught outcome

def executeInteractiveFrom : ℕ → Throwing InteractionFault (MARSSystem w M) Trap
  | 0 => throw .badInteraction
  | attempts + 1 => do
    match ← attempt registers openFile with
    | .ok trap => return trap
    | .error msg =>
      let s ← get
      set { s with kernel := s.kernel.complain msg }
      executeInteractiveFrom attempts

def maxAttempts : ℕ := 100

def executeInteractive : Throwing InteractionFault (MARSSystem w M) Trap :=
  executeInteractiveFrom registers openFile maxAttempts

end Model

section Words

/-- A word that is a number, and nothing after it. -/
def acceptInteger (word : List Byte) : Except String (BitVec 64) :=
  match IntegerText.stoll word with
  | .error .invalidArgument => .error "No conversion could be performed: stoll"
  | .error .outOfRange => .error "Out of range value: stoll"
  | .ok (value, pos) =>
    if pos ≠ word.length then .error "Unknown error." else .ok (BitVec.ofInt 64 value)

def acceptCharacter : List Byte → Except String (BitVec 64)
  | [c] => .ok (c.signExtend 64)
  | _ => .error "More than one character is entered"

/-- The two calls that ask, by their numbers. -/
def acceptFor (code : BitVec 64) : Option (List Byte → Except String (BitVec 64)) :=
  if code = 5#64 then some acceptInteger
  else if code = 12#64 then some acceptCharacter
  else none

variable (accept : List Byte → Except String (BitVec 64)) (input : Stream)

/-- What is said about the first words. -/
def complaints (n : ℕ) : List (List Byte) :=
  (List.range n).flatMap fun i =>
    match accept (input.word i) with
    | .ok _ => []
    | .error msg => [text (what "Bad input value" msg)]

/-- Words are taken, and messages given. -/
def conversed (k : MARSKernel) (n : ℕ) (messages : List (List Byte)) : MARSKernel :=
  (k.setStream (.host k.instream) (k.input.skip n)).setStream (.host k.errstream)
    (messages.foldl Stream.write (k.streams (.host k.errstream)))

end Words

section Streams

variable {k : MARSKernel} {accept : List Byte → Except String (BitVec 64)} {n : ℕ}

theorem setStream_comm {file file' : StreamRef} (h : file ≠ file') (stream stream' : Stream) :
    (k.setStream file stream).setStream file' stream'
      = (k.setStream file' stream').setStream file stream := by
  unfold setStream
  simp only [MARSKernel.mk.injEq, and_true]
  funext f
  split_ifs with h₁ h₂
  · exact absurd (h₂.symm.trans h₁) h
  · rfl
  · rfl
  · rfl

@[simp]
theorem conversed_zero (k : MARSKernel) : k.conversed 0 [] = k := by
  have hin : k.setStream (.host k.instream) (k.input.skip 0) = k := k.setStream_self _
  rw [conversed, hin]
  exact k.setStream_self _

variable (hne : k.instream ≠ k.errstream) (messages : List (List Byte))
include hne

theorem input_conversed : (k.conversed n messages).input = k.input.skip n := by
  have href : StreamRef.host k.instream ≠ .host k.errstream := by simpa using hne
  rw [input, conversed]
  show ((k.setStream _ _).setStream _ _).streams (.host k.instream) = _
  rw [streams_setStream_of_ne href, streams_setStream]

theorem extracted_conversed : (k.conversed n messages).extracted = k.conversed (n + 1) messages := by
  have href : StreamRef.host k.errstream ≠ .host k.instream := by simpa using hne.symm
  rw [extracted, input_conversed hne, ← Stream.skip_succ, conversed, conversed]
  show ((k.setStream _ _).setStream _ _).setStream (.host k.instream) _ = _
  rw [setStream_comm href, setStream_setStream]

omit hne in
theorem complain_conversed (msg : String) : (k.conversed n messages).complain msg
    = k.conversed n (messages ++ [text (what "Bad input value" msg)]) := by
  rw [complain, conversed, conversed]
  show ((k.setStream _ _).setStream (.host k.errstream) _).setStream (.host k.errstream) _ = _
  rw [setStream_setStream, List.foldl_append]
  show (k.setStream _ _).setStream _ ((((k.setStream _ _).setStream (.host k.errstream) _).streams
    (.host k.errstream)).write _) = _
  rw [streams_setStream]
  rfl

end Streams

section Asking

variable {registers : RegisterSet} {openFile : List Byte → OpenMode → Option Stream}
  {s : MARSSystem w M} {accept : List Byte → Except String (BitVec 64)} {code : BitVec 64}

/-- A call that asks takes one word, and writes what it accepts to a register. -/
def ask (registers : RegisterSet) (accept : List Byte → Except String (BitVec 64)) :
    Action w M PUnit := do
  let input ← extract
  match accept input with
  | .ok value => writeCpuRegister registers v0 value
  | .error msg => throw (.badInputValue msg)

omit [FuncMemory M] in
theorem readInteger_eq : (readInteger registers : Action w M _) = ask registers acceptInteger := by
  unfold readInteger ask
  refine congrArg _ (funext fun input => ?_)
  rw [acceptInteger]
  rcases IntegerText.stoll input with (_ | _) | ⟨value, pos⟩
  · rfl
  · rfl
  · dsimp only
    split_ifs <;> rfl

omit [FuncMemory M] in
theorem readCharacter_eq :
    (readCharacter registers : Action w M _) = ask registers acceptCharacter := by
  unfold readCharacter ask
  refine congrArg _ (funext fun input => ?_)
  rcases input with _ | ⟨c, _ | ⟨d, rest⟩⟩ <;> rfl

variable (openFile) in
theorem call_of_acceptFor (h : acceptFor code = some accept) :
    (call registers openFile code.toNat : Option (Action w M _))
      = some (ask registers accept) := by
  unfold acceptFor at h
  split_ifs at h with h₁ h₂
  · cases h
    rw [h₁, ← readInteger_eq]
    rfl
  · cases h
    rw [h₂, ← readCharacter_eq]
    rfl

variable (registers accept) in
omit [FuncMemory M] in
theorem run_ask (hregs : v0 < s.rf.maxReg) :
    (ask registers accept : Action w M _).run.run s = match accept s.kernel.input.extract.1 with
      | .ok value => (.ok ⟨⟩, ⟨s.kernel.extracted,
          s.rf.set (registers.fromCpuIndex v0) (value.setWidth w), s.mem⟩)
      | .error msg => (.error (.badInputValue msg), { s with kernel := s.kernel.extracted }) := by
  have hextract : (extract : Action w M _).run.run s
      = (.ok s.kernel.input.extract.1, { s with kernel := s.kernel.extracted }) := rfl
  rw [ask, run_bind_ok hextract]
  rcases accept s.kernel.input.extract.1 with msg | value
  · rfl
  · exact run_writeCpuRegister hregs (by decide) value

variable (registers openFile) in
theorem run_attempt : (attempt registers openFile).run.run s
    = (caught ((execute registers openFile).run.run s).1,
      ((execute registers openFile).run.run s).2) := rfl

variable (openFile) in
theorem run_attempt_ask (hregs : v0 < s.rf.maxReg)
    (h : acceptFor (s.cpuRegister registers v0) = some accept) :
    (attempt registers openFile).run.run s = match accept s.kernel.input.extract.1 with
      | .ok value => (.ok (.ok .noTrap), ⟨s.kernel.extracted,
          s.rf.set (registers.fromCpuIndex v0) (value.setWidth w), s.mem⟩)
      | .error msg => (.ok (.error msg), { s with kernel := s.kernel.extracted }) := by
  have hask := run_ask registers accept hregs
  rw [run_attempt, run_execute hregs (call_of_acceptFor openFile h)]
  rcases haccept : accept s.kernel.input.extract.1 with msg | value <;> rw [haccept] at hask
  · rw [run_bind_error hask]
    rfl
  · rw [run_bind_ok hask]
    rfl

end Asking

section Rounds

variable {registers : RegisterSet} {openFile : List Byte → OpenMode → Option Stream}
  {k : MARSKernel} {rf : RF w} {mem : M} {accept : List Byte → Except String (BitVec 64)}

/-- The first word of some that is accepted. -/
def firstAccepted (accept : List Byte → Except String (BitVec 64)) (input : Stream)
    (is : List ℕ) : Option (ℕ × BitVec 64) :=
  is.findSome? fun n => (accept (input.word n)).toOption.map (n, ·)

/-- What a call leaves that was answered with a word, or never. -/
def outcome (registers : RegisterSet) (accept : List Byte → Except String (BitVec 64))
    (s : MARSSystem w M) (attempts : ℕ) :
    Option (ℕ × BitVec 64) → Except InteractionFault Trap × MARSSystem w M
  | some (n, value) =>
    (.ok .noTrap, ⟨s.kernel.conversed (n + 1) (complaints accept s.kernel.input n),
      s.rf.set (registers.fromCpuIndex v0) (value.setWidth w), s.mem⟩)
  | none =>
    (.error .badInteraction,
      { s with
        kernel := s.kernel.conversed attempts (complaints accept s.kernel.input attempts) })

omit [FuncMemory M] in
theorem complaints_succ {input : Stream} {n : ℕ} {msg : String}
    (h : accept (input.word n) = .error msg) : complaints accept input (n + 1)
      = complaints accept input n ++ [text (what "Bad input value" msg)] := by
  rw [complaints, List.range_succ, List.flatMap_append, ← complaints]
  simp [h]

variable (openFile) in
theorem run_executeInteractiveFrom {s : MARSSystem w M} (hregs : v0 < s.rf.maxReg)
    (hne : s.kernel.instream ≠ s.kernel.errstream)
    (hasks : acceptFor (s.cpuRegister registers v0) = some accept) : ∀ attempts n,
    (executeInteractiveFrom registers openFile attempts).run.run
        { s with kernel := s.kernel.conversed n (complaints accept s.kernel.input n) }
      = outcome registers accept s (n + attempts)
          (firstAccepted accept s.kernel.input (List.range' n attempts))
  | 0, n => rfl
  | attempts + 1, n => by
    have hinput := input_conversed (n := n) hne (complaints accept s.kernel.input n)
    have hattempt := run_attempt_ask openFile
      (s := { s with kernel := s.kernel.conversed n (complaints accept s.kernel.input n) })
      hregs hasks
    dsimp only at hattempt
    rw [hinput, extracted_conversed hne, ← Stream.word] at hattempt
    rw [executeInteractiveFrom, firstAccepted, List.range'_succ, List.findSome?_cons]
    rcases haccept : accept (s.kernel.input.word n) with msg | value <;> rw [haccept] at hattempt
    · have ih := run_executeInteractiveFrom hregs hne hasks attempts (n + 1)
      rw [run_bind_ok hattempt]
      show (executeInteractiveFrom registers openFile attempts).run.run
        { s with
          kernel := (s.kernel.conversed (n + 1) (complaints accept s.kernel.input n)).complain
            msg } = _
      rw [complain_conversed, ← complaints_succ haccept, ih, Nat.succ_add_eq_add_succ]
      rfl
    · rw [run_bind_ok hattempt]
      rfl

end Rounds

section Throws

variable {registers : RegisterSet} {openFile : List Byte → OpenMode → Option Stream}

/-- An exception that is not about the input. -/
def FromSimulator (e : KernelException) : Prop := ∃ e', e = .simulator e'

omit [FuncMemory M] in
theorem throwsOnly_ofExcept {α : Type} (x : Except SimException α) :
    ThrowsOnly FromSimulator (ofExcept x : Action w M α) := by
  rcases x with e | a
  · exact throwsOnly_throw ⟨e, rfl⟩
  · exact throwsOnly_pure a

omit [FuncMemory M] in
theorem throwsOnly_readCpuRegister (regno : ℕ) :
    ThrowsOnly FromSimulator (readCpuRegister registers regno : Action w M _) :=
  throwsOnly_get.bind fun _ => (throwsOnly_ofExcept _).bind fun _ => throwsOnly_pure _

omit [FuncMemory M] in
theorem throwsOnly_writeCpuRegister (regno : ℕ) (value : BitVec 64) :
    ThrowsOnly FromSimulator (writeCpuRegister registers regno value : Action w M _) :=
  throwsOnly_get.bind fun _ => (throwsOnly_ofExcept _).bind fun _ => throwsOnly_set _

omit [FuncMemory M] in
theorem throwsOnly_onStream {α : Type} (file : StreamRef) (operation : Stream → α × Stream) :
    ThrowsOnly FromSimulator (onStream file operation : Action w M α) := fun _ _ _ h => by cases h

omit [FuncMemory M] in
theorem throwsOnly_vector (size : ℕ) :
    ThrowsOnly FromSimulator (vector size : Action w M _) := by
  unfold vector
  split_ifs
  · exact throwsOnly_pure _
  · exact throwsOnly_throw ⟨_, rfl⟩

theorem throwsOnly_readStringBySize (addr : Addr) (size : ℕ) :
    ThrowsOnly FromSimulator (readStringBySize addr size : Action w M _) :=
  (throwsOnly_vector size).bind fun _ => throwsOnly_get.bind fun _ => throwsOnly_pure _

theorem throwsOnly_memcpyHostToGuest (dst : Addr) (src : List Byte) :
    ThrowsOnly FromSimulator (memcpyHostToGuest dst src : Action w M _) :=
  throwsOnly_get.bind fun _ => (throwsOnly_ofExcept _).bind fun _ => throwsOnly_set _

theorem throwsOnly_readString (addr : Addr) :
    ThrowsOnly FromSimulator (readString addr : Action w M _) :=
  throwsOnly_get.bind fun _ => throwsOnly_readStringBySize _ _

theorem throwsOnly_openFileCall :
    ThrowsOnly FromSimulator (openFileCall registers openFile : Action w M _) := by
  refine (throwsOnly_readCpuRegister _).bind fun filenamePtr =>
    (throwsOnly_readCpuRegister _).bind fun flags => (throwsOnly_readString _).bind fun name => ?_
  rcases openFile name (getOpenmode flags) with _ | file
  · exact throwsOnly_writeCpuRegister _ _
  · refine throwsOnly_get.bind fun s => ?_
    have hrest : ThrowsOnly FromSimulator (do
        writeCpuRegister registers v0 s.kernel.nextDescriptor
        let s' ← get
        set { s' with kernel := { s'.kernel with nextDescriptor := s.kernel.nextDescriptor + 1#64 } }
        : Action w M PUnit) :=
      (throwsOnly_writeCpuRegister _ _).bind fun _ => throwsOnly_get.bind fun _ => throwsOnly_set _
    dsimp only
    split_ifs
    · exact (throwsOnly_set _).bind fun _ => hrest
    · exact hrest

theorem throwsOnly_readFromFile :
    ThrowsOnly FromSimulator (readFromFile registers : Action w M _) := by
  refine (throwsOnly_readCpuRegister _).bind fun descriptor =>
    (throwsOnly_readCpuRegister _).bind fun bufferPtr =>
    (throwsOnly_readCpuRegister _).bind fun count => throwsOnly_get.bind fun s => ?_
  rcases s.kernel.findInFileByDescriptor descriptor with _ | file
  · exact throwsOnly_writeCpuRegister _ _
  · exact (throwsOnly_vector _).bind fun _ => (throwsOnly_onStream _ _).bind fun _ =>
      (throwsOnly_onStream _ _).bind fun _ => (throwsOnly_onStream _ _).bind fun _ =>
      (throwsOnly_writeCpuRegister _ _).bind fun _ => throwsOnly_memcpyHostToGuest _ _

theorem throwsOnly_writeToFile :
    ThrowsOnly FromSimulator (writeToFile registers : Action w M _) := by
  refine (throwsOnly_readCpuRegister _).bind fun descriptor =>
    (throwsOnly_readCpuRegister _).bind fun bufferPtr =>
    (throwsOnly_readCpuRegister _).bind fun count => throwsOnly_get.bind fun s => ?_
  rcases s.kernel.findOutFileByDescriptor descriptor with _ | file
  · exact throwsOnly_writeCpuRegister _ _
  · exact (throwsOnly_get.bind fun _ => throwsOnly_readStringBySize _ _).bind fun _ =>
      (throwsOnly_onStream _ _).bind fun _ => (throwsOnly_onStream _ _).bind fun _ =>
      (throwsOnly_onStream _ _).bind fun _ => throwsOnly_writeCpuRegister _ _

omit [FuncMemory M] in
theorem throwsOnly_closeFile :
    ThrowsOnly FromSimulator (closeFile registers : Action w M _) := by
  refine (throwsOnly_readCpuRegister _).bind fun descriptor => ?_
  split_ifs
  · exact throwsOnly_pure _
  · exact throwsOnly_get.bind fun _ => throwsOnly_set _

/-- No other call takes a word and refuses it. -/
theorem throwsOnly_call {code : BitVec 64} (h : acceptFor code = none)
    {syscall : Action w M PUnit} (hcall : call registers openFile code.toNat = some syscall) :
    ThrowsOnly FromSimulator syscall := by
  have hcode : code ≠ 5#64 ∧ code ≠ 12#64 := by
    unfold acceptFor at h
    split_ifs at h with h₁ h₂
    exact ⟨h₁, h₂⟩
  generalize hn : code.toNat = n at hcall
  unfold call at hcall
  split at hcall <;> cases hcall
  · exact (throwsOnly_readCpuRegister _).bind fun _ => throwsOnly_get.bind fun _ =>
      throwsOnly_onStream _ _
  · exact (throwsOnly_readCpuRegister _).bind fun _ => throwsOnly_get.bind fun _ =>
      (throwsOnly_readString _).bind fun _ => throwsOnly_onStream _ _
  · exact absurd (BitVec.eq_of_toNat_eq hn) hcode.1
  · exact (throwsOnly_readCpuRegister _).bind fun _ => (throwsOnly_readCpuRegister _).bind fun _ =>
      (throwsOnly_get.bind fun _ => throwsOnly_onStream _ _).bind fun _ =>
      throwsOnly_memcpyHostToGuest _ _
  · exact (throwsOnly_readCpuRegister _).bind fun _ => throwsOnly_get.bind fun _ =>
      throwsOnly_onStream _ _
  · exact absurd (BitVec.eq_of_toNat_eq hn) hcode.2
  · exact throwsOnly_openFileCall
  · exact throwsOnly_readFromFile
  · exact throwsOnly_writeToFile
  · exact throwsOnly_closeFile

theorem throwsOnly_execute {s : MARSSystem w M} (hregs : v0 < s.rf.maxReg)
    (h : acceptFor (s.cpuRegister registers v0) = none) {e : KernelException}
    {t : MARSSystem w M} (ht : (execute registers openFile).run.run s = (.error e, t)) :
    FromSimulator e := by
  have hexit : ∀ x, ThrowsOnly FromSimulator (exit x : Action w M _) := fun _ =>
    throwsOnly_get.bind fun _ => (throwsOnly_set _).bind fun _ => throwsOnly_pure _
  unfold execute at ht
  rw [run_bind_ok (run_readCpuRegister hregs)] at ht
  split at ht
  · exact hexit _ _ _ _ ht
  · exact (throwsOnly_readCpuRegister _).bind (fun _ => hexit _) _ _ _ ht
  · split at ht
    · rename_i hcall
      exact (throwsOnly_call h hcall).bind (fun _ => throwsOnly_pure _) _ _ _ ht
    · cases ht

end Throws

section Interaction

variable (registers : RegisterSet) (openFile : List Byte → OpenMode → Option Stream)

/-- The call is made once, and ends as it does. -/
def Once (s : MARSSystem w M) : Prop :=
  (∃ trap t, (execute registers openFile).run.run s = (.ok trap, t)
      ∧ (executeInteractive registers openFile).run.run s = (.ok trap, t))
    ∨ ∃ e t, (execute registers openFile).run.run s = (.error (.simulator e), t)
      ∧ (executeInteractive registers openFile).run.run s = (.error (.simulator e), t)

/-- A call that asks takes words up to the first that is accepted, or a hundred; it writes the value
of the word to the register of results and a message for each word before it to the error stream,
and leaves everything else as it was. Every other call is made once. -/
theorem run_executeInteractive {s : MARSSystem w M} (hregs : v0 < s.rf.maxReg)
    (hne : s.kernel.instream ≠ s.kernel.errstream) :
    match acceptFor (s.cpuRegister registers v0) with
    | some accept => (executeInteractive registers openFile).run.run s
        = outcome registers accept s maxAttempts
            (firstAccepted accept s.kernel.input (List.range maxAttempts))
    | none => Once registers openFile s := by
  rcases hasks : acceptFor (s.cpuRegister registers v0) with _ | accept
  · have honce := run_attempt registers openFile (s := s)
    rcases hrun : (execute registers openFile).run.run s with ⟨e | trap, t⟩
    · obtain ⟨e, rfl⟩ := throwsOnly_execute hregs hasks hrun
      rw [hrun] at honce
      exact .inr ⟨e, t, hrun, run_bind_error honce _⟩
    · rw [hrun] at honce
      exact .inl ⟨trap, t, hrun, run_bind_ok honce _⟩
  · have hrounds := run_executeInteractiveFrom openFile hregs hne hasks maxAttempts 0
    have hstart : s.kernel.conversed 0 (complaints accept s.kernel.input 0) = s.kernel :=
      s.kernel.conversed_zero
    rw [hstart, Nat.zero_add, ← List.range_eq_range'] at hrounds
    exact hrounds

/-- A number is asked for, and the input is `x 42`. -/
def askSystem : MARSSystem 32 PlainMemory :=
  let s := MARSSystem.echoSystem 32 [0x78#8, 0x20#8, 0x34#8, 0x32#8]
  { s with rf := s.rf.set (MipsRegister.fromCpuIndex v0) 5#32 }

/-- The second word is the number. -/
theorem run_executeInteractive_second : ∃ t,
    (executeInteractive .mips fun _ _ => none).run.run askSystem = (.ok .noTrap, t)
      ∧ t.rf.get (MipsRegister.fromCpuIndex v0) = 42#32 := by
  have h := run_executeInteractive .mips (fun _ _ => none) (s := askSystem) (by decide) (by decide)
  have hasks : acceptFor (askSystem.cpuRegister .mips v0) = some acceptInteger := rfl
  have hfirst : firstAccepted acceptInteger askSystem.kernel.input (List.range maxAttempts)
      = some (1, 42#64) := by decide
  rw [hasks] at h
  dsimp only at h
  rw [hfirst] at h
  exact ⟨_, h, by decide⟩

end Interaction

end MARSKernel

end MiptMips
