import StudioWeb.WorkspaceJobs.SanitizeString
import Mathlib.Logic.Function.Basic

/-!
# Proposing documents for review

`share` with a review: the chosen documents and the `.studio` files that belong to them become
one commit on the person's review branch, built in an index of its own from the files as they
are.
-/

namespace StudioWeb
namespace DocumentShare

abbrev Path := List Char

def studioDir : List Char := ".studio".toList

def companionDirs : List (List Char) := ["comments".toList, "changes".toList, "history".toList]

/-- Equal but for the case of ASCII letters. -/
def sameLetters (a b : List Char) : Bool := a.map Char.toLower = b.map Char.toLower

/-- `/\.(md|markdown)$/i`. -/
def endsInMarkdown (file : Path) : Bool :=
  [".md".toList, ".markdown".toList].any (fun ending =>
    sameLetters (file.drop (file.length - ending.length)) ending)

def isDocumentPath (file : Path) : Bool :=
  endsInMarkdown file && !(studioDir ++ ['/']).isPrefixOf file

/-- What `.` does not match. -/
def isLineTerminator (c : Char) : Bool :=
  c = '\n' ∨ c = '\r' ∨ c = Char.ofNat 0x2028 ∨ c = Char.ofNat 0x2029

/-- `(?:\.json|\.jsonl|\/.*)$`. -/
def endsCompanion (text : List Char) : Bool :=
  sameLetters text ".json".toList || sameLetters text ".jsonl".toList ||
    (text.head? == some '/' && !text.any isLineTerminator)

/-- `/^(.+?\.(?:md|markdown))(?:\.json|\.jsonl|\/.*)$/i`, from a number of characters on. -/
def documentFrom (rest : List Char) (n : Nat) : Option Path :=
  [".md".toList, ".markdown".toList].findSome? (fun ending =>
    if sameLetters ((rest.drop n).take ending.length) ending &&
        endsCompanion (rest.drop (n + ending.length)) then
      some (rest.take (n + ending.length))
    else
      none)

/-- The first group of that expression. -/
def documentOf (rest : List Char) : Option Path :=
  (List.range rest.length).findSome? (fun n =>
    if (rest.take (n + 1)).any isLineTerminator then none else documentFrom rest (n + 1))

def companionOf (file : Path) : Option Path :=
  let folders := companionDirs.map (fun dir => studioDir ++ '/' :: dir ++ ['/'])
  match folders.find? (fun folder => folder.isPrefixOf file) with
  | some folder => documentOf (file.drop folder.length)
  | none => none

inductive EntryState where
  | modified
  | added
  | deleted
deriving DecidableEq

structure StatusEntry where
  path : Path
  state : EntryState
deriving DecidableEq

structure ShareDocument where
  path : Path
  companions : List Path
deriving DecidableEq

/-- `committedChanges`, from the two diffs with the upstream branch. -/
def committedChanges (ours : List StatusEntry) (differs : List Path) : List StatusEntry :=
  ours.filter (fun entry => differs.contains entry.path)

def companionsIn (entries : List StatusEntry) (document : Path) : List Path :=
  (entries.filter (fun e => companionOf e.path = some document)).map (·.path)

/-- The documents that have only companions changed. -/
def addOwner (entries : List StatusEntry) (documents : List ShareDocument)
    (entry : StatusEntry) : List ShareDocument :=
  match companionOf entry.path with
  | some owner =>
    if documents.any (fun document => document.path = owner) then documents
    else documents ++ [{ path := owner, companions := companionsIn entries owner }]
  | none => documents

/-- The documents of `describe`: what changed in the files, and in the commits not sent. -/
def documentsOf (working committed : List StatusEntry) : List ShareDocument :=
  let entries := working ++
    committed.filter (fun entry => !working.any (fun other => other.path = entry.path))
  let documents := (entries.filter (fun e => isDocumentPath e.path)).map (fun entry =>
    { path := entry.path, companions := companionsIn entries entry.path })
  entries.foldl (addOwner entries) documents

/-- What git says of a checkout: the status, the commits not sent, and the diffs with the
upstream branch. -/
structure Reported where
  working : List StatusEntry
  unsent : Nat
  ours : List StatusEntry
  differs : List Path

def Reported.committed (reported : Reported) : List StatusEntry :=
  if reported.unsent = 0 then [] else committedChanges reported.ours reported.differs

/-- `toPropose`: git is asked once for the documents and once more for the files. -/
def toPropose (reported again : Reported) (chosen : List Path) : List Path :=
  let documents := (documentsOf reported.working reported.committed).filter
    (fun document => chosen.contains document.path)
  let paths := documents.flatMap (fun document => document.path :: document.companions)
  let committed := if reported.unsent = 0 then []
    else committedChanges again.ours again.differs
  paths.filter (fun file =>
    again.working.any (fun entry => entry.path = file) ||
      committed.any (fun entry => entry.path = file))

section Git

universe u

/-- The files of a commit, by path. -/
abbrev Tree (Blob : Type u) := Path → Option Blob

inductive Commit (Blob : Type u) where
  | mk (tree : Tree Blob) (parents : List (Commit Blob)) (message : String)

variable {Blob : Type u}

def Commit.tree : Commit Blob → Tree Blob
  | .mk tree _ _ => tree

/-- How a git command ended. -/
structure GitResult where
  code : Nat
  stdout : String
  stderr : String

inductive Failure where
  | signIn
  | offline
  | rejected
  | protectedBranch
  | failed
deriving DecidableEq

inductive ShareOutcome where
  | review (branch : String)
  | nothing (branch : String)
  | signIn (detail : String)
  | offline (detail : String)
  | failed (detail : String)
deriving DecidableEq

structure ShareReview where
  branch : String
  base : String
  opened : Bool

structure Building where
  hashed : Path → Bool
  step : Nat → GitResult
  writeTree : Bool
  commitTree : GitResult

/-- What git answers in one attempt, and the review branch as the remote has it at the fetch. -/
structure Attempt (Blob : Type u) where
  review : Option (Commit Blob)
  fetchReview : GitResult
  building : Building
  push : GitResult

/-- What git answers to `propose`, and the base as the remote has it at the fetch. -/
structure Answers (Blob : Type u) where
  fetchBase : GitResult
  base : Option (Commit Blob)
  first : Attempt Blob
  second : Attempt Blob

structure Pushed (Blob : Type u) where
  commit : Commit Blob
  attempt : Attempt Blob

variable (failureOf : GitResult → Failure)

/-- `trim`. -/
def trimmed (text : String) : String := String.ofList (WorkspaceJobs.jsTrim text.toList)

/-- `(stderr || stdout).trim()`. -/
def GitResult.detail (result : GitResult) : String :=
  trimmed (if result.stderr = "" then result.stdout else result.stderr)

/-- `failed`. -/
def failedOf (result : GitResult) : ShareOutcome :=
  match failureOf result with
  | .signIn => .signIn (trimmed result.stderr)
  | .offline => .offline (trimmed result.stderr)
  | _ => .failed result.detail

def updateIndex (disk : Tree Blob) (index : Tree Blob) (file : Path) : Tree Blob :=
  Function.update index file (disk file)

/-- The steps on the index, one for each file after `read-tree`. -/
def runSteps (step : Nat → GitResult) (disk : Tree Blob) :
    Nat → Tree Blob → List Path → Except ShareOutcome (Tree Blob)
  | _, index, [] => .ok index
  | n, index, file :: files =>
    if (step n).code = 0 then
      runSteps step disk (n + 1) (updateIndex disk index file) files
    else
      .error (.failed (step n).detail)

def commitOnto (git : Building) (disk : Tree Blob) (parent : Commit Blob) (files : List Path)
    (message : String) : Except ShareOutcome (Commit Blob) :=
  match files.find? (fun file => (disk file).isSome && !git.hashed file) with
  | some file => .error (.failed ("could not read " ++ String.ofList file))
  | none =>
    if (git.step 0).code ≠ 0 then
      .error (.failed (git.step 0).detail)
    else do
      let tree ← runSteps git.step disk 1 parent.tree files
      if git.writeTree = false then
        .error (.failed "could not write the tree")
      else if git.commitTree.code ≠ 0 then
        .error (.failed git.commitTree.detail)
      else
        .ok (.mk tree [parent] message)

/-- What a commit is built on: the open request's branch where it could be fetched, else the
base. -/
def parentOf (opened : Bool) (attempt : Attempt Blob) (base : Option (Commit Blob)) :
    Option (Commit Blob) :=
  let fetched := if opened ∧ attempt.fetchReview.code = 0 then attempt.review else none
  fetched.or base

/-- The attempts of `propose`: the outcome, and what was pushed. -/
def attempts (review : ShareReview) (disk : Tree Blob) (files : List Path) (message : String)
    (base : Option (Commit Blob)) :
    List (Attempt Blob) → ShareOutcome × Option (Pushed Blob)
  | [] => (.failed "the review branch kept moving; try again", none)
  | attempt :: rest =>
    match parentOf review.opened attempt base with
    | none => (.failed ("the remote has no branch " ++ review.base), none)
    | some parent =>
      match commitOnto attempt.building disk parent files message with
      | .error outcome => (outcome, none)
      | .ok commit =>
        if attempt.push.code = 0 then
          (.review review.branch, some { commit := commit, attempt := attempt })
        else if failureOf attempt.push ≠ .rejected then
          (failedOf failureOf attempt.push, none)
        else
          attempts review disk files message base rest

def propose (review : ShareReview) (disk : Tree Blob) (files : List Path) (message : String)
    (answers : Answers Blob) : ShareOutcome × Option (Pushed Blob) :=
  if answers.fetchBase.code ≠ 0 then
    (failedOf failureOf answers.fetchBase, none)
  else
    attempts failureOf review disk files message answers.base [answers.first, answers.second]

/-- `share` of a request with a review. -/
def shareForReview (review : ShareReview) (disk : Tree Blob) (reported again : Reported)
    (chosen : List Path) (message : String) (answers : Answers Blob) :
    ShareOutcome × Option (Pushed Blob) :=
  let files := toPropose reported again chosen
  if files = [] then (.nothing review.branch, none)
  else propose failureOf review disk files message answers

end Git

end DocumentShare
end StudioWeb
