import BackOffice.Config.Environment
import BackOffice.Policy.Explanation
import BackOffice.Proofs.Ceiling
import BackOffice.Rehearsal.Play
import BackOffice.Proofs.History
import BackOffice.Proofs.Listings
import BackOffice.Proofs.Marks
import BackOffice.Proofs.Staleness
import BackOffice.Proofs.Keys
import BackOffice.Proofs.Provenance
import BackOffice.Proofs.Gates
import BackOffice.Proofs.Exclusion
import BackOffice.Proofs.Plays
import BackOffice.Proofs.Retries
import BackOffice.Proofs.Confirmation
import BackOffice.Proofs.Agreement
import BackOffice.Proofs.Isolation
import BackOffice.Proofs.Resubmission
import BackOffice.Proofs.Invalidation
import BackOffice.Proofs.Failures
import BackOffice.Proofs.Traces
import BackOffice.Proofs.RoundTrip
import BackOffice.Proofs.Precedence
import BackOffice.Proofs.Filing
import BackOffice.Proofs.Attempts
import BackOffice.Proofs.Refreshes
import BackOffice.Proofs.Sweeps
import BackOffice.Proofs.PolicySaves
import BackOffice.Proofs.FailedListings
import BackOffice.Proofs.Suggestions
import BackOffice.Proofs.Mismatches
import BackOffice.Proofs.Guards
import BackOffice.Proofs.Fingerprints
import BackOffice.Proofs.Environment
import BackOffice.Proofs.Spellings
import BackOffice.Proofs.Attachment
import BackOffice.Proofs.Retention
import BackOffice.Proofs.Versions
