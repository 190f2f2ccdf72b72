import MicroCard.Mc04.Imports
import MicroCard.Mc04.State

/-! Linking: what the members that an assembly calls stand for, which packages run
together, and the checks of the calls between all of them. -/
namespace MicroCard.Mc04

open Bytes Cbor Halting
open Card (Descriptor)

def maxExecutionUnits : Nat := 17

def maxLinkedMethods : Nat := maxExecutionUnits * Table.maxRows .methodDef

def maxLinkedCallEdges : Nat := 2048

/-- The bytes that every image starts with. -/
def imageMagic : List Byte := [0x4d, 0x43, 0x30, 0x34]

/-- A package with the image that was read for it. -/
structure PackageView where
  manifest : Manifest
  image : List Byte
  signer : Fixed 32
  digest : Fixed 32

/-- A failure of the engine is a refusal. -/
def checked {α : Type} (x : Except Error α) : Checked α := x.mapError .refused

namespace StoredPackage

/-- The image is a range of the stored bytes. -/
def view (package : StoredPackage) (raw : List Byte) : Checked PackageView := do
  let image ← orRefuse (range? raw package.image.1 package.image.2) .storage
  pure ⟨package.manifest, image, package.signer, package.digest⟩

end StoredPackage

section Resolving

variable (fuel : Nat) (images : Descriptor → Except Error (List Byte)) (state : State)

/-- Remember a binding whose assembly has the name that is looked for. -/
def matchBinding (bindings : List ResolvedDependency) (name : String) (found : Option Nat) (index : Nat) :
    Checked (Option Nat) := do
  let candidate ← orRefuse bindings[index]? .missing
  let (_, assembly, _) ← checked (state.assemblyByDigest candidate.digest)
  if assembly = name then do
    refuseIf (found.isSome = true) .format
    pure (some index)
  else pure found

/-- The provider that a binding names, with its image. -/
def readProvider (digest : Fixed 32) : Checked PackageView := do
  let (_, name, provider) ← checked (state.assemblyByDigest digest)
  let metadata ← checked (provider.packageMetadata name)
  let descriptor ← orRefuse ((provider.imageRefs.find name).map Prod.snd) .storage
  let raw ← checked (images descriptor)
  metadata.view raw

/-- A member of another package. -/
def resolveManaged (bindings : List ResolvedDependency) (consumer : Assembly) (member opcode : Nat) : Checked CallTarget := do
  refuseIf (opcode = 0x73) .unsupported
  let view ← consumer.memberRef member
  refuseIf (view.parent.table ≠ .typeRef) .unsupported
  let owner ← consumer.typeRef view.parent.row
  refuseIf (owner.scope.table ≠ .assemblyRef) .unsupported
  let reference ← consumer.assemblyRef owner.scope.row
  let found ← (List.range bindings.length).foldlM (matchBinding state bindings reference.name) none
  let dependency ← orRefuse found .missing
  let binding ← orRefuse bindings[dependency]? .missing
  let provider ← readProvider images state binding.digest
  refuseIf (provider.digest ≠ binding.digest ∨ reference.name ≠ provider.manifest.assembly ∨
    reference.version ≠ provider.manifest.assemblyVersion ∨ reference.flags ≠ 0 ∨ reference.publicKeyOrToken ≠ [] ∨
    reference.culture ≠ "" ∨ reference.hashValue ≠ [] ∨ provider.image.take 4 ≠ imageMagic) .unauthorized
  let assembly ← Assembly.parse provider.image
  let method ← assembly.findMethodFor fuel owner.namespace' owner.name view.name consumer member
  refuseIf (2 ^ 8 ≤ dependency) .quota
  pure (.managed (UInt8.ofNat dependency) (UInt16.ofNat method))

def Import.target : Import → CallTarget
  | .objectConstructor => .objectConstructor
  | .currentDomain => .currentDomain
  | .domainStorage => .domainStorage
  | .domainKeys => .domainKeys
  | .native id => .native id

/-- What a member stands for: one of the framework, or a method of a bound package. -/
def resolveCall (bindings : List ResolvedDependency) (consumer : Assembly) (use : Nat × Nat) : Checked ResolvedCall := do
  let import' ← resolve consumer use.1
  let target ← match import' with
    | some import' => pure import'.target
    | none => resolveManaged fuel images state bindings consumer use.1 use.2
  pure ⟨UInt16.ofNat use.1, target⟩

def resolveCalls (package : PackageView) (bindings : List ResolvedDependency) : Checked (List ResolvedCall) :=
  if package.image.take 4 ≠ imageMagic then pure []
  else do
    let consumer ← Assembly.parse package.image
    let uses ← consumer.memberRefUses
    uses.mapM (resolveCall fuel images state bindings consumer)

end Resolving

section Dependencies

/-- Whether a package is one that a dependency asks for. -/
def Dependency.matchesParts (dependency : Dependency) (manifest : Manifest) (signer digest : Fixed 32) : Bool :=
  dependency.assembly = manifest.assembly &&
    dependency.ranges.any (fun range => range.matches' manifest.assemblyVersion) &&
    (dependency.packageVersion = 0 || dependency.packageVersion = manifest.version) &&
    dependency.signer.all (fun expected => expected = signer) && dependency.digest.all fun expected => expected = digest

/-- A provider of a domain that a dependency accepts and that lets the consumer use it. -/
def providerIn (domain : Option Domain) (dependency : Dependency) (consumerKey : Fixed 32) : Option ResolvedDependency := do
  let domain ← domain
  let provider ← (domain.packages.find dependency.assembly).map Prod.snd
  if dependency.matchesParts provider.manifest provider.signer provider.digest = true ∧
    provider.manifest.export'.allows provider.signer consumerKey = true then some ⟨provider.digest⟩ else none

/-- The only provider of a dependency in the domains that its scope covers. -/
def resolveDependency (state : State) (consumerDomain : String) (dependency : Dependency) (consumerKey : Fixed 32) :
    Option ResolvedDependency :=
  let local' := if consumerDomain = "ISD" then some state.isd else (state.domains.find consumerDomain).map Prod.snd
  let considered := if dependency.scope = 0 then [local']
    else if dependency.scope = 1 then [some state.isd]
    else if dependency.scope = 2 then local' :: if consumerDomain ≠ "ISD" then [some state.isd] else []
    else []
  match considered.filterMap fun domain => providerIn domain dependency consumerKey with
  | [resolved] => some resolved
  | _ => none

end Dependencies

section Sources

variable (state : State)

/-- A package that runs with others: its domain, its name, and the domain's record. -/
abbrev PackageSource := String × String × Domain

def pushExecutionSource (sources : List PackageSource) (domain assembly : String) (expected : Option (Fixed 32)) :
    Checked (List PackageSource) := do
  let source ← orRefuse (state.domain domain) .domain
  let metadata ← checked (source.packageMetadata assembly)
  if sources.any (fun s => s.1 = domain && s.2.1 = assembly) = true then do
    refuseIf (expected.any (fun digest => digest ≠ metadata.digest) = true) .storage
    pure sources
  else do
    refuseIf (expected.any (fun digest => digest ≠ metadata.digest) = true) .unauthorized
    refuseIf (maxExecutionUnits ≤ sources.length) .quota
    pure (sources ++ [(domain, assembly, source)])

/-- The package behind a call, if it is managed. -/
def pushCallee (bindings : List ResolvedDependency) (sources : List PackageSource) (call : ResolvedCall) :
    Checked (List PackageSource) :=
  match call.target with
  | .managed dependency _ => do
      let binding ← orRefuse bindings[dependency.toNat]? .storage
      let (domain, assembly, _) ← checked (state.assemblyByDigest binding.digest)
      pushExecutionSource state sources domain assembly (some binding.digest)
  | _ => pure sources

def sourcesStep (search : Nat × List PackageSource) : Checked ((Nat × List PackageSource) ⊕ List PackageSource) :=
  match search.2[search.1]? with
  | none => pure (.inr search.2)
  | some (_, name, source) => do
      let calls ← orRefuse ((source.imports.find name).map Prod.snd) .storage
      let bindings ← orRefuse ((source.bindings.find name).map Prod.snd) .storage
      let sources ← calls.foldlM (pushCallee state bindings) search.2
      pure (.inl (search.1 + 1, sources))

/-- The packages that run with one, in the order in which they are found. -/
def executionSources (domain assembly : String) : Checked (List PackageSource) := do
  let source ← orRefuse (state.domain domain) .domain
  refuseIf (source.packages.contains assembly = false) .missing
  let sources ← pushExecutionSource state [] domain assembly none
  loop (sourcesStep state) (maxExecutionUnits + 1) (0, sources)

/-- A package with all that its domain keeps for it. -/
structure BorrowedPackage where
  metadata : StoredPackage
  raw : List Byte
  bindings : List ResolvedDependency
  calls : List ResolvedCall

/-- The first package may be a candidate that has not been stored yet. -/
def loadPackage (images : Descriptor → Except Error (List Byte)) (candidate : Option (List Byte)) (source : PackageSource) :
    Checked BorrowedPackage := do
  let raw ← match candidate with
    | some raw => pure raw
    | none => do
        let descriptor ← orRefuse ((source.2.2.imageRefs.find source.2.1).map Prod.snd) .storage
        checked (images descriptor)
  let metadata ← checked (source.2.2.packageMetadata source.2.1)
  let bindings ← orRefuse ((source.2.2.bindings.find source.2.1).map Prod.snd) .storage
  let calls ← orRefuse ((source.2.2.imports.find source.2.1).map Prod.snd) .storage
  pure ⟨metadata, raw, bindings, calls⟩

/-- A package ready to run: its image, what it is bound to, and what its members are. -/
structure ExecutionUnit where
  package : PackageView
  bindings : List ResolvedDependency
  calls : List ResolvedCall

def BorrowedPackage.unit (package : BorrowedPackage) : Checked ExecutionUnit := do
  let view ← package.metadata.view package.raw
  pure ⟨view, package.bindings, package.calls⟩

end Sources

section Graph

/-- A depth-first search over all methods: whether one is new, being visited or done, how
deep the calls from it nest, and whether any of them is irreversible. -/
structure ProgramSearch where
  states : List Nat
  depths : List Nat
  effects : List Bool

variable (nodeCount : Nat) (edges : List (Nat × Nat)) (irreversible : List Bool)

/-- Follow an edge, and keep the greater depth and either effect. -/
def followEdge (visit : Nat → ProgramSearch → Checked ((Nat × Bool) × ProgramSearch))
    (state : (Nat × Bool) × ProgramSearch) (target : Nat) : Checked ((Nat × Bool) × ProgramSearch) := do
  refuseIf (nodeCount ≤ target) .bounds
  let ((depth, effect), search) ← visit target state.2
  refuseIf (2 ^ 8 ≤ depth + 1) .quota
  refuseIf (32 < max state.1.1 (depth + 1)) .quota
  pure ((max state.1.1 (depth + 1), state.1.2 || effect), search)

def visitNode : Nat → Nat → ProgramSearch → Checked ((Nat × Bool) × ProgramSearch)
  | 0, _, _ => throw .endless
  | fuel + 1, node, search => do
      let state ← orRefuse search.states[node]? .bounds
      if state = 1 then throw (.refused .quota)
      else if state = 2 then do
        let depth ← orRefuse search.depths[node]? .bounds
        let effect ← orRefuse search.effects[node]? .bounds
        pure ((depth, effect), search)
      else do
        let effect ← orRefuse irreversible[node]? .bounds
        let targets := (edges.filter fun edge => edge.1 = node).map Prod.snd
        let ((depth, effect), search) ← targets.foldlM (followEdge nodeCount (visitNode fuel))
          ((1, effect), { search with states := search.states.set node 1 })
        pure ((depth, effect),
          ⟨search.states.set node 2, search.depths.set node depth, search.effects.set node effect⟩)

/-- No recursion, no call nested deeper than 32, and nothing irreversible below a
transactional method. -/
def validateProgramGraph (transactional : List Bool) : Checked Unit := do
  refuseIf (irreversible.length ≠ nodeCount ∨ transactional.length ≠ nodeCount) .bounds
  let search ← (List.range nodeCount).foldlM (fun search node => do
    let (_, search) ← visitNode nodeCount edges irreversible (nodeCount + 1) node search
    pure search) ⟨List.replicate nodeCount 0, List.replicate nodeCount 0, List.replicate nodeCount false⟩
  refuseIf ((transactional.zip search.effects).any (fun pair => pair.1 && pair.2) = true) .unsupported

end Graph

section Program

/-- What is known of the calls so far. -/
structure ProgramGraph where
  edges : List (Nat × Nat)
  irreversible : List Bool
  transactional : List Bool

def pushLinkEdge (edges : List (Nat × Nat)) (edge : Nat × Nat) : Checked (List (Nat × Nat)) := do
  refuseIf (maxLinkedCallEdges ≤ edges.length) .quota
  pure (edges ++ [edge])

variable (units : List ExecutionUnit) (offsets : List Nat)

/-- The only unit with a digest. -/
def unitWithDigest (digest : Fixed 32) : Checked Nat :=
  match units.findIdxs fun unit => unit.package.digest = digest with
  | [] => throw (.refused .missing)
  | [index] => pure index
  | _ => throw (.refused .storage)

/-- An edge to a method of a unit, which has to have it. -/
def linkEdge (graph : ProgramGraph) (source targetUnit targetMethod : Nat) : Checked ProgramGraph := do
  let offset ← orRefuse offsets[targetUnit]? .bounds
  let next ← Halting.index offsets (targetUnit + 1)
  refuseIf (next ≤ offset + targetMethod) .bounds
  let edges ← pushLinkEdge graph.edges (source, offset + targetMethod)
  pure { graph with edges := edges }

/-- A call of another unit goes over the binding that its member was resolved to. -/
def linkMember (unit : ExecutionUnit) (graph : ProgramGraph) (source member : Nat) : Checked ProgramGraph := do
  let binding ← orRefuse (unit.calls.find? fun call => call.member.toNat = member) .storage
  match binding.target with
  | .native id => if id = 6 then pure { graph with irreversible := graph.irreversible.set source true } else pure graph
  | .managed dependency method => do
      let dependency ← orRefuse unit.bindings[dependency.toNat]? .storage
      let index ← unitWithDigest units dependency.digest
      linkEdge offsets graph source index method.toNat
  | _ => pure graph

def linkCall (unitIndex : Nat) (unit : ExecutionUnit) (source : Nat) (graph : ProgramGraph) (token : MetadataToken) :
    Checked ProgramGraph :=
  if token.table = .methodDef then do
    refuseIf (token.row = 0) .bounds
    linkEdge offsets graph source unitIndex (token.row - 1)
  else if token.table = .memberRef then linkMember units offsets unit graph source token.row
  else throw (.refused .format)

def linkMethod (unitIndex : Nat) (unit : ExecutionUnit) (assembly : Assembly) (offset : Nat) (graph : ProgramGraph)
    (method : Nat) : Checked ProgramGraph := do
  let view ← assembly.method method
  let calls ← assembly.methodCalls method
  calls.foldlM (linkCall units offsets unitIndex unit (offset + method))
    { graph with transactional := graph.transactional.set (offset + method) (view.bodyFlags.testBit 0) }

/-- The edges of a unit. -/
def linkUnit (assemblies : List Assembly) (graph : ProgramGraph) (unitIndex : Nat) : Checked ProgramGraph := do
  let unit ← Halting.index units unitIndex
  let assembly ← Halting.index assemblies unitIndex
  let offset ← Halting.index offsets unitIndex
  (List.range (assembly.rows .methodDef)).foldlM (linkMethod units offsets unitIndex unit assembly offset) graph

/-- The first node of each unit, and one past the last. -/
def methodOffsets (assemblies : List Assembly) : Checked (List Nat) :=
  assemblies.foldlM (fun offsets assembly => do
    let next := offsets.getLastD 0 + assembly.rows .methodDef
    refuseIf (maxLinkedMethods < next) .quota
    pure (offsets ++ [next])) [0]

/-- The calls of all methods, and the node of each unit's first method. -/
def collectCalls (assemblies : List Assembly) : Checked (List Nat × ProgramGraph) := do
  let offsets ← methodOffsets assemblies
  let nodeCount := offsets.getLastD 0
  let graph ← (List.range units.length).foldlM (linkUnit units offsets assemblies)
    ⟨[], List.replicate nodeCount false, List.replicate nodeCount false⟩
  pure (offsets, graph)

def validateLinkedProgram : Checked Unit := do
  refuseIf (maxExecutionUnits < units.length) .quota
  let assemblies ← units.mapM fun unit => Assembly.parse unit.package.image
  let (offsets, graph) ← collectCalls units assemblies
  validateProgramGraph (offsets.getLastD 0) graph.edges graph.irreversible graph.transactional

/-- Load the packages that run with one, and check the calls between them. -/
def executionUnits (state : State) (images : Descriptor → Except Error (List Byte)) (domain assembly : String)
    (candidate : Option (List Byte)) : Checked (List ExecutionUnit) := do
  let sources ← executionSources state domain assembly
  let first ← (sources.take 1).mapM (loadPackage images candidate)
  let rest ← (sources.drop 1).mapM (loadPackage images none)
  let units ← (first ++ rest).mapM BorrowedPackage.unit
  validateLinkedProgram units
  pure units

end Program

end MicroCard.Mc04
