import HashtagIndex.Http.Routes
import HashtagIndex.Main
import HashtagIndex.Schema.Kind
import HashtagIndex.Schema.Word
import HashtagIndex.Tools
import HashtagIndex.Proofs.Tagging
import HashtagIndex.Proofs.Parsing
import HashtagIndex.Proofs.Aggregation
import HashtagIndex.Proofs.Retagging
import HashtagIndex.Proofs.Encoding
import HashtagIndex.Proofs.LineViews
import HashtagIndex.Proofs.Outcomes
import HashtagIndex.Proofs.Planning
import HashtagIndex.Proofs.StalePlan
import HashtagIndex.Proofs.Editing
import HashtagIndex.Proofs.DocumentRetagging
import HashtagIndex.Proofs.Scanning
import HashtagIndex.Proofs.Renaming
import HashtagIndex.Proofs.Undoing
import HashtagIndex.Proofs.RealPaths
import HashtagIndex.Proofs.Resolving
import HashtagIndex.Proofs.Discovery
import HashtagIndex.Proofs.LinkFree
import HashtagIndex.Proofs.Updating
import HashtagIndex.Proofs.Upkeep
import HashtagIndex.Proofs.Grounds
import HashtagIndex.Proofs.LinkTargets
import HashtagIndex.Proofs.Confinement
import HashtagIndex.Proofs.Accounting
import HashtagIndex.Proofs.Reachability
import HashtagIndex.Proofs.Answering
import HashtagIndex.Proofs.Forgetting
import HashtagIndex.Proofs.BreakPieces
import HashtagIndex.Proofs.Substitution
import HashtagIndex.Proofs.FreshPlan
import HashtagIndex.Proofs.Naming
import HashtagIndex.Proofs.Completing
import HashtagIndex.Proofs.Collecting
import HashtagIndex.Proofs.Counting
import HashtagIndex.Proofs.SiblingOrder
import HashtagIndex.Proofs.TableWalk
import HashtagIndex.Proofs.Deleting
import HashtagIndex.Proofs.PathSets
import HashtagIndex.Proofs.FailedScans
import HashtagIndex.Proofs.Leading
import HashtagIndex.Proofs.Acyclic
import HashtagIndex.Proofs.Lowering
import HashtagIndex.Proofs.Configuring
import HashtagIndex.Proofs.Listing
import HashtagIndex.Proofs.CanonicalKeys
import HashtagIndex.Proofs.LineLocality
import HashtagIndex.Proofs.IndexHistory
