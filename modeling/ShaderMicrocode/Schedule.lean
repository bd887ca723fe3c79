import ShaderMicrocode.Backend
/-!
# Schedules

Everything that a translation of a shader may print, report and show, in order and whatever the backend does. A
schedule is split where an abort can stop it: before a control flow instruction and before a word of a block.
-/
namespace ShaderMicrocode

open Fetch

/-- One thing that a translation does. -/
inductive Act where
  | announce (index : UInt32) (opcode : ControlFlow.Opcode)
  | print (line : String)
  | report (d : Diagnostic)
  | present (e : Event)
deriving DecidableEq, Inhabited

/-- The acts of one control flow instruction: those that always happen once it is reached, those of each word of
its block, and those that close the block. -/
structure Step where
  index : UInt32
  opening : List Act
  block : List (List Act)
  closing : List Act
deriving DecidableEq, Inhabited

namespace Act

/-- The line of the word at `address`. -/
def wordLine (address : UInt32) (predicate : Predicate) (body : String) : Act :=
  print (instructionLine (wordOffset address) (predicate.column ++ body))

/-- Prints and shows a decoded fetch, or prints and reports why there is none. -/
def ofFetch (address : UInt32) (predicate : Predicate) (decoded : Except DecodeError α) (text : α → String)
    (event : α → Event) : List Act :=
  match decoded with
  | .ok f => [wordLine address predicate (text f), present (event f)]
  | .error e => [wordLine address predicate e.placeholder, report (.undecodable e)]

/-- The text of one half of an ALU word. -/
def halfText : Except DecodeError Alu.Instruction → String
  | .ok i => i.text
  | .error e => e.placeholder

/-- Both halves share a line. What cannot be decoded is reported before anything is shown. -/
def ofHalves (address : UInt32) (predicate : Predicate) (halves : List (Except DecodeError Alu.Instruction)) :
    List Act :=
  wordLine address predicate (" + ".intercalate (halves.map halfText))
    :: halves.filterMap (fun | .ok _ => none | .error e => some (report (.undecodable e)))
    ++ halves.filterMap (fun | .ok i => some (present (.alu i)) | .error _ => none)

/-- The acts of one word, given the full vertex fetch visited last. -/
def ofVisit (stage : Stage) (lastFull : Option VertexWord) (v : Visit) : List Act :=
  if v.isFetch then
    if opcodeBits v.word = Opcode.vertexFetch.code then
      let op := VertexWord.decode v.word
      ofFetch v.address op.predicate (op.resolve lastFull v.address) VertexFetch.text .vertexFetch
    else
      let op := TextureWord.decode v.word
      ofFetch v.address op.predicate (op.resolve v.address) TextureFetch.text .textureFetch
  else
    let op := Alu.Word.decode v.word
    ofHalves v.address op.predicate (op.halves stage v.address)

end Act

/-- The full vertex fetch visited last, once `v` has been visited. -/
def Visit.remember (v : Visit) (lastFull : Option VertexWord) : Option VertexWord :=
  if v.isFetch ∧ opcodeBits v.word = Opcode.vertexFetch.code then
    (VertexWord.decode v.word).remember lastFull
  else lastFull

namespace Schedule

/-- The acts of the words of a block. -/
def ofVisits (stage : Stage) (lastFull : Option VertexWord) : List Visit → List (List Act)
  | [] => []
  | v :: rest => Act.ofVisit stage lastFull v :: ofVisits stage (v.remember lastFull) rest

/-- A word outside the microcode is reported where it would have been shown. -/
def ofBlock (stage : Stage) (lastFull : Option VertexWord) (b : Block) : List (List Act) :=
  ofVisits stage lastFull b.visits ++ (b.fault?.map fun e => [Act.report (.undecodable e)]).toList

/-- The event of an instruction; an exec opens its block with it. -/
def event : ControlFlow.Instruction → Event
  | .nop k => .nop k
  | .exec e => .execBegin e
  | .loopStart l => .loopStart l
  | .loopEnd l => .loopEnd l
  | .call c => .call c
  | .ret k => .ret k
  | .jump j => .jump j
  | .alloc a => .alloc a

/-- The label of a control flow index, when something goes there. -/
def labelActs (labels : List UInt32) (index : UInt32) : List Act :=
  if index ∈ labels then [.print (labelLine index), .present (.label index)] else []

def step (stage : Stage) (words : Array UInt32) (labels : List UInt32) (lastFull : Option VertexWord)
    (index : UInt32) (w : ControlFlow.Word) : Step :=
  let head := labelActs labels index ++ [.announce index w.opcode]
  let line body := Act.print (instructionLine (controlFlowOffset index) body)
  match w.resolve index stage with
  | .error e =>
    ⟨index, head ++ [line (Predicate.blank ++ e.placeholder), .report (.undecodable e)], [], []⟩
  | .ok i =>
    let opening := head ++ [line i.text, .present (event i)]
    match i, w.block? words with
    | .exec e, some b => ⟨index, opening, ofBlock stage lastFull b, [.present (.execEnd e)]⟩
    | _, _ => ⟨index, opening, [], []⟩

/-- The full vertex fetch visited last, once the block of `w` has been walked. -/
def rememberBlock (words : Array UInt32) (w : ControlFlow.Word) (lastFull : Option VertexWord) : Option VertexWord :=
  ((w.block? words).map Block.visits).getD [] |>.foldl (fun last v => v.remember last) lastFull

/-- The steps of the control flow instructions from index `k` on. -/
def walk (stage : Stage) (words : Array UInt32) (labels : List UInt32) (lastFull : Option VertexWord) (k : Nat) :
    List ControlFlow.Word → List Step
  | [] => []
  | w :: rest =>
    step stage words labels lastFull (UInt32.ofNat k) w
      :: walk stage words labels (rememberBlock words w lastFull) (k + 1) rest

end Schedule

/-- The bindings of a shader, the errors known before its control flow is walked, and the steps of the walk. -/
structure Schedule where
  bindings : Bindings
  faults : List Diagnostic
  steps : List Step
deriving DecidableEq, Inhabited

namespace Schedule

/-- What is wrong with a program as a whole: a partial pair, textures that conflict, targets past its end. -/
def programFaults (p : Program) (b : Bindings) : List Diagnostic :=
  (p.truncatedAt.map fun offset => .undecodable (.truncatedControlFlow offset)).toList
    ++ b.conflicts
    ++ (p.labels.filter fun target => p.length ≤ target.toNat).map fun target => .targetPastEnd target p.length

/-- The plan for a shader that holds the bindings `held`. -/
def planOnto (held : Bindings) (stage : Stage) (words : Array UInt32) : Schedule :=
  let p := Program.read words
  let bindings := held.gatherOnto (p.fetches words)
  { bindings := bindings
    faults := programFaults p bindings
    steps := walk stage words p.labels none 0 p.instructions }

def plan (stage : Stage) (words : Array UInt32) : Schedule := planOnto .empty stage words

end Schedule

end ShaderMicrocode
