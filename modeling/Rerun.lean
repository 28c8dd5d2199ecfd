import Rerun.Main
import Rerun.Tool
import Rerun.Proofs.Runs
import Rerun.Proofs.Edits
import Rerun.Proofs.Doubled
import Rerun.Proofs.Registered
import Rerun.Proofs.Processed
import Rerun.Proofs.Checked
import Rerun.Proofs.Spurious
import Rerun.Proofs.Transparent
import Rerun.Proofs.Hidden
import Rerun.Proofs.Sites
import Rerun.Proofs.Clients
import Rerun.Proofs.Coexisting
import Rerun.Proofs.Clobbered
import Rerun.Proofs.Windows
import Rerun.Proofs.Carries
import Rerun.Proofs.Integers
import Rerun.Proofs.Overlaps
import Rerun.Proofs.Addresses
import Rerun.Proofs.Masks
import Rerun.Proofs.Guards
import Rerun.Proofs.Differences
import Rerun.Proofs.Growing
import Rerun.Proofs.Identities
import Rerun.Proofs.Held
import Rerun.Proofs.Lifetimes
import Rerun.Proofs.Trials
import Rerun.Proofs.Outcomes
import Rerun.Proofs.Lanes
import Rerun.Proofs.Teardowns
import Rerun.Proofs.Rollbacks
import Rerun.Proofs.Placed
import Rerun.Proofs.Spelled
import Rerun.Proofs.Ranges
import Rerun.Proofs.Rounds
import Rerun.Proofs.Eligible
import Rerun.Proofs.Streams
import Rerun.Proofs.Seeds
