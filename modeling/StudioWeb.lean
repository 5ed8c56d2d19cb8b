import StudioWeb.Scheduler.ForbidPolicy
import StudioWeb.WorkspaceJobs.CancelIsolation
import StudioWeb.WorkspaceJobs.TerminalJobs
import StudioWeb.WorkspaceJobs.QueueScheduling
import StudioWeb.WorkspaceJobs.JournalReplay
import StudioWeb.DomainModel.BurnedVersions
import StudioWeb.DomainModel.ConcurrentEdits
import StudioWeb.Tasks.EnqueueCalls
import StudioWeb.ReadModel.RelationsAgree
import StudioWeb.ReadModel.ReadModelTruth
import StudioWeb.RepositoryOperations.RetryRuns
import StudioWeb.Tasks.SettledRuns
import StudioWeb.ApiContract.CompatChains
import StudioWeb.StudioAuthz.RekeyedGrants
import StudioWeb.UserProfile.AliasProofs
import StudioWeb.Documents.TableWrites
import StudioWeb.Documents.MovedWrites
import StudioWeb.UserProfile.OnePerson
import StudioWeb.UserProfile.ActiveOwners
import StudioWeb.AccessDocuments.ReadersAgree
import StudioWeb.AccessDocuments.GrantWrites
import StudioWeb.StudioAuthz.SeenAtOnce
import StudioWeb.StudioEvents.EveryEvent
import StudioWeb.Presence.Notes
import StudioWeb.Environments.WhatRuns
import StudioWeb.Environments.Decisions
import StudioWeb.Environments.Retention
import StudioWeb.Environments.Promotion
import StudioWeb.Environments.PreviewsApart
import StudioWeb.Environments.OnePlace
import StudioWeb.Environments.MetadataRow
import StudioWeb.Environments.NamespaceAssignments
import StudioWeb.Product.PinnedBuild
import StudioWeb.Product.OneLine
import StudioWeb.WorkspaceConfig.MutationTurns
import StudioWeb.ComponentsCatalog.WrittenPassports
import StudioWeb.WorkspaceConfig.MigrationKeeps
import StudioWeb.Scheduler.CronRefusals
import StudioWeb.EventStream.NoHole
import StudioWeb.WorkspaceBoundary.NothingLeaves
import StudioWeb.MarkdownEditor.NothingUnseen
import StudioWeb.DocumentShare.TakesNothingBack
import StudioWeb.WorkspaceMigration.SurvivesCrashes
import StudioWeb.Scheduler.IntervalGrammar
import StudioWeb.Scheduler.FiringsAhead
import StudioWeb.DescriptionEdit.NeverPanics
import StudioWeb.Tasks.RunAttempts
import StudioWeb.DomainModel.InheritedFields
import StudioWeb.DomainModel.KeysetSql
import StudioWeb.DomainModel.GroupCounts
import StudioWeb.DomainModel.Mutate
import StudioWeb.Documents.Approvals
import StudioWeb.Documents.FixEdits
import StudioWeb.LlmProxy.UsageScan
