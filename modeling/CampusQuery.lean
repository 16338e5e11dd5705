import CampusQuery.Main
import CampusQuery.Proofs.Answer.Aggregates
import CampusQuery.Proofs.Answer.Algebra
import CampusQuery.Proofs.Answer.Equality
import CampusQuery.Proofs.Answer.Matches
import CampusQuery.Proofs.Answer.Partition
import CampusQuery.Proofs.Answer.Regrouping
import CampusQuery.Proofs.Answer.Reordering
import CampusQuery.Proofs.Answer.Sorting
import CampusQuery.Proofs.Dataset.Loading
import CampusQuery.Proofs.Decimal.Quotients
import CampusQuery.Proofs.Display.Csv
import CampusQuery.Proofs.Frame
import CampusQuery.Proofs.Listing
import CampusQuery.Proofs.Opening
import CampusQuery.Proofs.Query.Addressing
import CampusQuery.Proofs.Query.Globbing
import CampusQuery.Proofs.Query.Reordering
import CampusQuery.Proofs.Shell.Entries
import CampusQuery.Proofs.Shell.Layout
import CampusQuery.Proofs.Shell.Padding
import CampusQuery.Proofs.Shell.Recall
import CampusQuery.Proofs.Shell.Sessions
import CampusQuery.Proofs.Storage.Readers
import CampusQuery.Proofs.Storage.SafeNames
