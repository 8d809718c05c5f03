import StaticSite.Asset.Manifest
import StaticSite.Build.Site
import StaticSite.Calendar
import StaticSite.Json.Writer
import StaticSite.Main
import StaticSite.Markup.Template
import StaticSite.Page.Document
import StaticSite.Page.Sitemap
import StaticSite.Proofs.AddressEndings
import StaticSite.Proofs.Agreement
import StaticSite.Proofs.AlternateFormats
import StaticSite.Proofs.AnnotatedPass
import StaticSite.Proofs.BackgroundAddress
import StaticSite.Proofs.Cascade
import StaticSite.Proofs.ClassNames
import StaticSite.Proofs.Cleaning
import StaticSite.Proofs.Cloning
import StaticSite.Proofs.ComponentOrder
import StaticSite.Proofs.ConfigReports
import StaticSite.Proofs.Confinement
import StaticSite.Proofs.Containment
import StaticSite.Proofs.Copies
import StaticSite.Proofs.Cutting
import StaticSite.Proofs.Deduplication
import StaticSite.Proofs.Document
import StaticSite.Proofs.EmbeddedAssets
import StaticSite.Proofs.Emission
import StaticSite.Proofs.EndingWalks
import StaticSite.Proofs.Extraction
import StaticSite.Proofs.FailFast
import StaticSite.Proofs.FailedRun
import StaticSite.Proofs.Folding
import StaticSite.Proofs.Graph
import StaticSite.Proofs.Independence
import StaticSite.Proofs.InlinedSheet
import StaticSite.Proofs.InputSafety
import StaticSite.Proofs.JsonText
import StaticSite.Proofs.KeptElement
import StaticSite.Proofs.KeptReferences
import StaticSite.Proofs.LocalLoading
import StaticSite.Proofs.ManifestSummary
import StaticSite.Proofs.Minification
import StaticSite.Proofs.Optimization
import StaticSite.Proofs.PageFiles
import StaticSite.Proofs.PageModes
import StaticSite.Proofs.PageOutcome
import StaticSite.Proofs.PageShapes
import StaticSite.Proofs.PageTypes
import StaticSite.Proofs.Parking
import StaticSite.Proofs.Place
import StaticSite.Proofs.Publication
import StaticSite.Proofs.PublishedAddress
import StaticSite.Proofs.Reader
import StaticSite.Proofs.RefusedProps
import StaticSite.Proofs.Relinking
import StaticSite.Proofs.Relocation
import StaticSite.Proofs.Replacement
import StaticSite.Proofs.RoundedShare
import StaticSite.Proofs.RuleReading
import StaticSite.Proofs.ScaledDimensions
import StaticSite.Proofs.SettledSheets
import StaticSite.Proofs.Sharing
import StaticSite.Proofs.SheetRoundTrip
import StaticSite.Proofs.SiteReports
import StaticSite.Proofs.Slot
import StaticSite.Proofs.Squeezing
import StaticSite.Proofs.Tightening
import StaticSite.Proofs.Uncommenting
import StaticSite.Proofs.Unfolding
import StaticSite.Proofs.VisibleContent
import StaticSite.Proofs.Walk
import StaticSite.Proofs.Work
import StaticSite.Relink
import StaticSite.Renderer.Core
import StaticSite.Rendering
import StaticSite.Site.File
import StaticSite.Style.Sheet
import StaticSite.Toml
import StaticSite.Tree.Output
import StaticSite.Url
import StaticSite.Yaml
