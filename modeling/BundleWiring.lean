import BundleWiring.Attribute.Typed
import BundleWiring.Candidate
import BundleWiring.Capability
import BundleWiring.CapabilitySet.Lookup
import BundleWiring.Clause
import BundleWiring.Config
import BundleWiring.Context
import BundleWiring.Error
import BundleWiring.Feature
import BundleWiring.Filter.Evaluation
import BundleWiring.Filter.OfAttributes
import BundleWiring.Filter.Printer
import BundleWiring.Filter.Reader
import BundleWiring.Header
import BundleWiring.Manifest.Build
import BundleWiring.Names
import BundleWiring.Repository
import BundleWiring.Requirement
import BundleWiring.Resource
import BundleWiring.Session
import BundleWiring.Table
import BundleWiring.Text.Delimited
import BundleWiring.Text.Lowercase
import BundleWiring.Version.Qualifier
import BundleWiring.Version.Range
import BundleWiring.Proofs.CapabilitySet.Consistency
import BundleWiring.Proofs.CapabilitySet.Lookup
import BundleWiring.Proofs.CapabilitySet.Canonical
import BundleWiring.Proofs.CapabilitySet.History
import BundleWiring.Proofs.Equality
import BundleWiring.Proofs.Attribute.Order
import BundleWiring.Proofs.StableSort
import BundleWiring.Proofs.Context.Preference
import BundleWiring.Proofs.Context.Search
import BundleWiring.Proofs.Version.Text
import BundleWiring.Proofs.Repository.Faithful
import BundleWiring.Proofs.Repository.Refinement
import BundleWiring.Proofs.Filter.Grammar
import BundleWiring.Proofs.Filter.OfAttributes
import BundleWiring.Proofs.Filter.RoundTrip
import BundleWiring.Proofs.Filter.Names
import BundleWiring.Proofs.Manifest.Readers
import BundleWiring.Proofs.Manifest.Wiring
import BundleWiring.Proofs.Manifest.Host
import BundleWiring.Proofs.Header.Keys
import BundleWiring.Proofs.Manifest.RecordedFilter
import BundleWiring.Proofs.Header.Separators
import BundleWiring.Proofs.Requirement.Order
import BundleWiring.Proofs.Text.Delimited
import BundleWiring.Proofs.Attribute.Text
import BundleWiring.Proofs.Header.Parameters
import BundleWiring.Proofs.Clause.Text
import BundleWiring.Proofs.Manifest.Contents
import BundleWiring.Proofs.Text.Positions
import BundleWiring.Proofs.Filter.Substring
import BundleWiring.Proofs.Filter.Pattern
import BundleWiring.Proofs.Filter.OwnAttributes
import BundleWiring.Proofs.Version.Syntax
import BundleWiring.Proofs.Version.Positions
import BundleWiring.Proofs.Context.Hosted
import BundleWiring.Proofs.Feature
import BundleWiring.Proofs.Text.Lists
import BundleWiring.Proofs.Manifest.Environments
import BundleWiring.Proofs.Attribute.Sorting
import BundleWiring.Proofs.Manifest.Imports
import BundleWiring.Proofs.Version.Qualifier
import BundleWiring.Proofs.Attribute.ReadBack
import BundleWiring.Proofs.Header.Pass
import BundleWiring.Proofs.Header.Positions
