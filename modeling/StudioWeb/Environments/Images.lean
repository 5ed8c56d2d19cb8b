import Mathlib.Data.List.Infix
import StudioWeb.Environments.Deployments

/-!
# The records of a project's images and charts

The records of `environments/images.rs`, how a reference is taken apart, and where a
record runs.
-/

namespace StudioWeb
namespace Environments

open Scheduler (Uuid)

inductive ImageKind where
  | image
  | chart
deriving DecidableEq

inductive ImageState where
  | present
  | missing
  | deleted
  | retained
deriving DecidableEq

structure ImageRecord where
  id : Uuid
  organizationId : Uuid
  projectId : Uuid
  registryConnectionId : Option Uuid
  registryHost : String
  repository : String
  tags : List String
  digest : String
  buildId : Option String
  pushedAtMs : Int
  kind : ImageKind
  state : ImageState
  pinned : Bool
deriving DecidableEq

namespace ImageRecord

def chartRef (r : ImageRecord) : String := "oci://" ++ r.registryHost ++ "/" ++ r.repository

/-- The filter of `sweep`: the registry has it, as far as the record says. -/
def inRegistry (r : ImageRecord) : Bool := r.state = .present || r.state = .retained

/-- The repository of a record, under its host. -/
def path (r : ImageRecord) : String × String := (r.registryHost, r.repository)

end ImageRecord

structure Reference where
  host : String
  repository : String
  tag : Option String
  digest : Option String
deriving DecidableEq

def isDigest (d : List Char) : Bool :=
  (Rust.stripPrefix "sha256:".toList d).any fun h => h.length = 64 && h.all Char.isHexDigit

def isTag (t : List Char) : Bool :=
  t ≠ [] && t.length ≤ 128 && t.all (fun c => c.isAlphanum || c ∈ ['.', '_', '-']) &&
    t.head? ≠ some '.' && t.head? ≠ some '-'

/-- A character of a repository's path segment. -/
def isPathChar (c : Char) : Bool := c.isLower || c.isDigit || c ∈ ['.', '_', '-']

/-- `str::rfind` of a character, by what stands before and after it. -/
def splitLast (delimiter : Char) (text : List Char) : Option (List Char × List Char) :=
  (Rust.splitOnce delimiter text.reverse).map fun parts => (parts.2.reverse, parts.1.reverse)

namespace Reference

/-- The digest of a reference, after the first `@`. -/
def splitDigest (r : List Char) : Option (List Char × Option (List Char)) :=
  match Rust.splitOnce '@' r with
  | some (rest, d) => if isDigest d then some (rest, some d) else none
  | none => some (r, none)

/-- The tag of a reference: after the last `:` that comes after the last `/`. -/
def splitTag (rest : List Char) : List Char × Option (List Char) :=
  match splitLast ':' rest with
  | some (name, tag) => if '/' ∈ tag then (rest, none) else (name, some tag)
  | none => (rest, none)

/-- The registry host of a name, Docker Hub's when it names none. -/
def splitHost (name : List Char) : List Char × List Char :=
  match Rust.splitOnce '/' name with
  | some (host, repository) =>
    if '.' ∈ host || ':' ∈ host || host = "localhost".toList then
      (host, repository)
    else
      ("docker.io".toList, name)
  | none => ("docker.io".toList, "library/".toList ++ name)

def parse (reference : String) : Option Reference :=
  let trimmed := Rust.trim reference.toList
  let r := (Rust.stripPrefix "oci://".toList trimmed).getD trimmed
  if r = [] || r.any Rust.isWhitespace || decide ("://".toList <:+: r) then
    none
  else
    match splitDigest r with
    | none => none
    | some (rest, digest) =>
      let (name, tag) := splitTag rest
      if tag.any fun t => !isTag t then
        none
      else
        let (host, repository) := splitHost name
        if repository = [] ||
            !(repository.splitOn '/').all fun seg => seg ≠ [] && seg.all isPathChar then
          none
        else
          some ⟨.ofList host, .ofList repository, tag.map .ofList, digest.map .ofList⟩

end Reference

example :
    Reference.parse "ghcr.io/acme/shop/api:1" =
      some ⟨"ghcr.io", "acme/shop/api", some "1", none⟩ := by
  decide

def namedByDigest (r : ImageRecord) (image : String) : Bool :=
  ("@" ++ r.digest).toList.isSuffixOf image.toList

/-- The image is named by its repository and a tag, and the record carries the tag there.
What has a digest as well is the image of that digest. -/
def namedByTag (r : ImageRecord) (image : String) : Bool :=
  (Reference.parse image).any fun reference =>
    reference.host = r.registryHost && reference.repository = r.repository &&
      reference.digest = none && reference.tag.any fun t => t ∈ r.tags

def chartAtVersion (r : ImageRecord) (d : Deployment) : Bool :=
  d.chartRef.any fun c => c.reference = r.chartRef && c.version ∈ r.tags

def runs (r : ImageRecord) (d : Deployment) : Bool :=
  match r.kind with
  | .image => d.images.any fun i => namedByDigest r i.image
  | .chart => chartAtVersion r d

def uses (r : ImageRecord) (d : Deployment) : Bool :=
  match r.kind with
  | .image => d.images.any fun i => namedByDigest r i.image || namedByTag r i.image
  | .chart => chartAtVersion r d

def chartDigest (records : List ImageRecord) (chart : ChartRef) : Option String :=
  (records.find? fun r =>
    r.kind = .chart && r.chartRef = chart.reference && chart.version ∈ r.tags &&
      isDigest r.digest.toList).map ImageRecord.digest

/-- The release names the record's image by its tag. -/
def usesByTag (r : ImageRecord) (d : Deployment) : Bool :=
  r.kind = .image && d.images.any fun i => namedByTag r i.image

/-- `SweepTask`'s `running`: one of the releases runs the record. -/
def running (live : List Deployment) (r : ImageRecord) : Bool := live.any (runs r)

section Running

variable {r : ImageRecord} {d : Deployment}

/-- What a release uses it runs, or names by a tag. -/
theorem uses_eq : uses r d = (runs r d || usesByTag r d) := by
  unfold uses runs usesByTag
  cases r.kind with
  | image =>
    rw [Bool.eq_iff_iff]
    simp [and_or_left, exists_or]
  | chart => simp

theorem running_mono {live live' : List Deployment} (hmore : live ⊆ live')
    (h : running live r = true) : running live' r = true := by
  obtain ⟨d, hd, hruns⟩ := List.any_eq_true.mp h
  exact List.any_eq_true.mpr ⟨d, hmore hd, hruns⟩

end Running
end Environments
end StudioWeb
